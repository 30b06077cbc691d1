/-
Module: CarrySave.Proofs.Netlist.Kinds
Layer: Proofs
Purpose: What netlists are made of.  The kinds of the gates, in order, determine the number of
  gates of each kind and the price under every cost model.  Builders that are granted add gates of
  kinds that do not depend on the wires they are given.
Main exports: Netlist.kinds, Netlist.get?_kindCounts, CostModel.cost_push, CostModel.cost_eq,
  Builder.AddsKinds, Builder.addsKinds_bind, Builder.addsKinds_inputs
-/
import CarrySave.Netlist.Cost
import CarrySave.Proofs.Netlist.Growth
import Mathlib.Tactic.Ring

namespace CarrySave

namespace Netlist

/-! ### Kinds in order -/

/-- The kinds of the gates of a netlist, in order. -/
def kinds (nl : Netlist) : List String :=
  nl.gates.toList.map Gate.kind

@[simp] theorem kinds_empty (name : String) : kinds { name } = [] := rfl

@[simp] theorem kinds_push (nl : Netlist) (gate : Gate) :
    (nl.push gate).kinds = nl.kinds ++ [gate.kind] := by
  simp [kinds, push]

/-- The kinds that occur are counted, each as often as it occurs, and no others. -/
theorem get?_kindCounts (nl : Netlist) (kind : String) :
    nl.kindCounts.get? kind =
      if nl.kinds.count kind = 0 then none else some (nl.kinds.count kind) := by
  induction nl using push_induction with
  | empty name => rfl
  | push nl gate inductionHypothesis =>
      have counted : (nl.push gate).kindCounts = countKind nl.kindCounts gate.kind := by
        simp [kindCounts, push]
      rw [counted, countKind, Roster.get?_insert, kinds_push, List.count_append,
        List.count_singleton]
      by_cases same : kind = gate.kind
      · subst same
        rw [inductionHypothesis]
        by_cases none : nl.kinds.count gate.kind = 0 <;> simp [none]
      · have other : (gate.kind == kind) = false := beq_eq_false_iff_ne.mpr (Ne.symm same)
        simp [same, other, inductionHypothesis]

end Netlist

/-- One more gate costs its own price. -/
theorem CostModel.cost_push (model : CostModel) (nl : Netlist) (gate : Gate) :
    model.cost (nl.push gate) = model.cost nl + model.gatePrice gate := by
  simp [cost, Netlist.push]

/-- The price of a netlist, from how many gates it has of each operator. -/
theorem CostModel.cost_eq (model : CostModel) (nl : Netlist) :
    model.cost nl = model.andPrice * nl.kinds.count "and" + model.orPrice * nl.kinds.count "or" +
      model.xorPrice * nl.kinds.count "xor" := by
  induction nl using Netlist.push_induction with
  | empty name => rfl
  | push nl gate inductionHypothesis =>
      rw [cost_push, inductionHypothesis, Netlist.kinds_push]
      cases gate with
      | input label => simp [gatePrice, Gate.op?, Gate.kind]
      | buffer source => simp [gatePrice, Gate.op?, Gate.kind]
      | logic op a b =>
          cases op <;> simp [gatePrice, Gate.op?, Gate.kind, price, Op.name] <;> ring

/-! ### Kinds that builders add -/

namespace Builder

variable {α β : Type}

/-- When the builder is granted, it adds gates of the given kinds. -/
def AddsKinds (builder : Builder α) (kinds : List String) : Prop :=
  ∀ (nl : Netlist) (value : α) (grown : Netlist),
    builder.run nl = .ok value grown → grown.kinds = nl.kinds ++ kinds

theorem addsKinds_pure (value : α) : AddsKinds (pure value) [] := by
  intro nl result grown runs
  cases runs
  simp

theorem addsKinds_throw (error : Error) (kinds : List String) :
    AddsKinds (throw error : Builder α) kinds := by
  intro nl result grown runs
  cases runs

/-- Two builders in a row add what the first adds and then what the second does. -/
theorem addsKinds_bind {first : Builder α} {next : α → Builder β} {early late : List String}
    (one : AddsKinds first early) (two : ∀ value, AddsKinds (next value) late) :
    AddsKinds (first >>= next) (early ++ late) := by
  intro nl result grown runs
  rw [EStateM.run_bind] at runs
  cases outcome : first.run nl with
  | error error left =>
      rw [outcome] at runs
      cases runs
  | ok value middle =>
      rw [outcome] at runs
      rw [two value middle result grown runs, one nl value middle outcome, List.append_assoc]

/-- Applying a function to what a builder returns leaves alone what it adds. -/
theorem addsKinds_bind_pure {first : Builder α} {next : α → β} {kinds : List String}
    (one : AddsKinds first kinds) :
    AddsKinds (first >>= fun value => pure (next value)) kinds := by
  have added := addsKinds_bind one fun value => addsKinds_pure (next value)
  rwa [List.append_nil] at added

/-- A builder of one gate adds the kind of the gate that it describes. -/
theorem addsKinds_mint {describe : Netlist → Except Error Gate} {kind : String}
    (sound : ∀ nl gate, describe nl = .ok gate → gate.kind = kind) :
    AddsKinds (mint describe) [kind] := by
  intro nl wire grown runs
  rw [run_mint] at runs
  cases described : describe nl with
  | error error =>
      rw [described] at runs
      cases runs
  | ok gate =>
      rw [described] at runs
      cases runs
      rw [Netlist.kinds_push, sound nl gate described]

theorem addsKinds_input (label : String) : AddsKinds (input label) ["input"] := by
  apply addsKinds_mint
  intro nl gate described
  cases described
  rfl

theorem addsKinds_buffer (source : Datum) : AddsKinds (buffer source) ["buffer"] := by
  apply addsKinds_mint
  intro nl gate described
  cases resolved : nl.resolve source with
  | error error => simp [resolved, bind, Except.bind] at described
  | ok wire =>
      simp only [resolved, bind, Except.bind, pure, Except.pure] at described
      cases described
      rfl

theorem addsKinds_logic (op : Op) (a b : Datum) : AddsKinds (logic op a b) [op.name] := by
  apply addsKinds_mint
  intro nl gate described
  cases resolvedA : nl.resolve a with
  | error error => simp [resolvedA, bind, Except.bind] at described
  | ok x =>
      cases resolvedB : nl.resolve b with
      | error error => simp [resolvedA, resolvedB, bind, Except.bind] at described
      | ok y =>
          simp only [resolvedA, resolvedB, bind, Except.bind, pure, Except.pure] at described
          cases described
          rfl

theorem addsKinds_inputs (labels : List String) :
    AddsKinds (inputs labels) (List.replicate labels.length "input") := by
  unfold inputs
  induction labels with
  | nil => exact addsKinds_pure _
  | cons label rest inductionHypothesis =>
      rw [List.mapM_cons, List.length_cons, List.replicate_succ]
      exact addsKinds_bind (addsKinds_input label) fun _ => addsKinds_bind_pure inductionHypothesis

end Builder

end CarrySave
