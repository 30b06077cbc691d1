/-
Module: CarrySave.Gate
Layer: Netlists
Purpose: The gates of a netlist: primary inputs, two-operand logic gates, and buffers that
  repeat an earlier wire.  A wire is the position of its gate.
Main exports: Op, Op.apply, Op.ofName?, Gate, Gate.operands, Gate.kind, Gate.role, Gate.text
-/
namespace CarrySave

/-! ### Operators of logic gates -/

/-- The operators of two-operand gates. -/
inductive Op where
  | and
  | or
  | xor
deriving DecidableEq, Repr, Inhabited

namespace Op

/-- All operators, in the order in which prices are listed. -/
def all : List Op := [.and, .or, .xor]

/-- The name of an operator in listings. -/
def name : Op → String
  | .and => "and"
  | .or => "or"
  | .xor => "xor"

/-- The name of an operator in capitals. -/
def capitals : Op → String
  | .and => "AND"
  | .or => "OR"
  | .xor => "XOR"

/-- The operator of a name. -/
def ofName? (name : String) : Option Op :=
  all.find? (·.name == name)

/-- The bit an operator computes. -/
def apply : Op → Bool → Bool → Bool
  | .and, x, y => x && y
  | .or, x, y => x || y
  | .xor, x, y => x != y

end Op

/-! ### Gates -/

/-- One gate.  Operands are wires of earlier gates. -/
inductive Gate where
  /-- A primary input with a label of its own. -/
  | input (label : String)
  /-- A second identity for an earlier wire, free under every cost model. -/
  | buffer (source : Nat)
  /-- A logic gate with two operands. -/
  | logic (op : Op) (a b : Nat)
deriving DecidableEq, Repr, Inhabited

namespace Gate

/-- The operand wires of a gate, in order. -/
def operands : Gate → List Nat
  | .input _ => []
  | .buffer source => [source]
  | .logic _ a b => [a, b]

/-- The operator of a logic gate. -/
def op? : Gate → Option Op
  | .logic op _ _ => some op
  | _ => none

/-- The kind under which a gate is counted: an operator counts as a kind of its own. -/
def kind : Gate → String
  | .input _ => "input"
  | .buffer _ => "buffer"
  | .logic op _ _ => op.name

/-- The part a gate plays in a graph, whatever its operator. -/
def role : Gate → String
  | .input _ => "input"
  | .buffer _ => "buffer"
  | .logic _ _ _ => "gate"

/-- A gate as a short term. -/
def text : Gate → String
  | .input label => s!"input({label})"
  | .buffer source => s!"buf({source})"
  | .logic op a b => op.name ++ s!"({a}, {b})"

end Gate

end CarrySave
