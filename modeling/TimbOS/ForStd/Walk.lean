import Mathlib

/-!
# Walks that do not remember where they have been

A walk goes from node to node along a partial function and ends where the function has no value.
It comes to an end unless it comes back to a node, which it does not notice.

## Key results

- `induction_of_acyclic`: induction over what can be reached without a cycle
- `Visits.unique`, `Visits.nodup`: a walk that ends visits a node once
- `visits_iff`: exactly which walks end
-/

namespace ForStd

open Relation

/-! ## Relations without a cycle -/

/-- In a finite part without a cycle, what holds of a node because it holds of all nodes behind it
    holds of the node at which the part begins. -/
theorem induction_of_acyclic {α : Type*} {r : α → α → Prop} {a : α} {P : α → Prop}
    (hfin : {b | ReflTransGen r a b}.Finite)
    (hacyclic : ∀ b, ReflTransGen r a b → ¬ TransGen r b b)
    (h : ∀ b, ReflTransGen r a b → (∀ c, r b c → P c) → P b) : P a := by
  -- the nodes that can be reached are well-founded
  let Reached := {b // ReflTransGen r a b}
  let below (b c : Reached) : Prop := TransGen r c.1 b.1
  have : Finite Reached := hfin
  have : IsTrans Reached below := ⟨fun b c d hbc hcd => TransGen.trans hcd hbc⟩
  have : Std.Irrefl below := ⟨fun b hb => hacyclic b.1 b.2 hb⟩
  have hwf : WellFounded below := Finite.wellFounded_of_trans_of_irrefl below
  have hall : ∀ b : Reached, P b.1 := by
    intro b
    induction b using hwf.induction with
    | _ b ih =>
      apply h b.1 b.2
      intro c hbc
      exact ih ⟨c, b.2.tail hbc⟩ (TransGen.single hbc)
  exact hall ⟨a, .refl⟩

/-! ## Walks -/

section Walk

variable {α : Type*} (next : α → Option α)

/-- The walk from a node visits the nodes of the list and ends. -/
inductive Visits : α → List α → Prop
  | stop {a : α} (h : next a = none) : Visits a [a]
  | go {a b : α} {l : List α} (h : next a = some b) (hb : Visits b l) : Visits a (a :: l)

/-- One step of the walk. -/
def Link (a b : α) : Prop := next a = some b

/-- The walk from `a` comes to a node that it comes back to. -/
def GoesRound (a : α) : Prop :=
  ∃ b, ReflTransGen (Link next) a b ∧ TransGen (Link next) b b

variable {next} {a b : α} {l l' : List α}

theorem Visits.unique (h : Visits next a l) (h' : Visits next a l') : l = l' := by
  induction h generalizing l' with
  | stop hstop =>
    cases h' with
    | stop _ => rfl
    | go hgo _ => simp [hstop] at hgo
  | go hgo _ ih =>
    cases h' with
    | stop hstop => simp [hstop] at hgo
    | go hgo' hb =>
      rw [hgo] at hgo'
      cases hgo'
      rw [ih hb]

/-- What is left of a walk at one of its nodes. -/
theorem Visits.of_mem (h : Visits next a l) (hb : b ∈ l) :
    ∃ l', Visits next b l' ∧ l'.length ≤ l.length := by
  induction h with
  | stop hstop =>
    rw [List.mem_singleton.mp hb]
    exact ⟨_, .stop hstop, Nat.le_refl _⟩
  | go hgo htail ih =>
    rcases List.mem_cons.mp hb with rfl | hb
    · exact ⟨_, .go hgo htail, Nat.le_refl _⟩
    · obtain ⟨l', hvisits, hle⟩ := ih hb
      exact ⟨l', hvisits, Nat.le_succ_of_le hle⟩

/-- A walk visits the nodes that it can reach. -/
theorem Visits.mem_iff (h : Visits next a l) : b ∈ l ↔ ReflTransGen (Link next) a b := by
  induction h with
  | @stop a hstop =>
    rw [List.mem_singleton]
    constructor
    · rintro rfl
      exact .refl
    · intro hreach
      rcases hreach.cases_head with heq | ⟨c, hc, -⟩
      · exact heq.symm
      · rw [Link, hstop] at hc
        cases hc
  | @go a c l hgo _ ih =>
    rw [List.mem_cons, ih]
    constructor
    · rintro (rfl | hreach)
      · exact .refl
      · exact hreach.head hgo
    · intro hreach
      rcases hreach.cases_head with heq | ⟨d, hd, hrest⟩
      · exact .inl heq.symm
      · rw [Link, hgo] at hd
        cases hd
        exact .inr hrest

/-- Further on there is less of the walk left. -/
theorem Visits.length_lt (h : Visits next a l) (hab : TransGen (Link next) a b)
    (h' : Visits next b l') : l'.length < l.length := by
  obtain ⟨c, hac, hcb⟩ := TransGen.head'_iff.mp hab
  cases h with
  | stop hstop =>
    rw [Link, hstop] at hac
    cases hac
  | go hgo htail =>
    rw [Link, hgo] at hac
    cases hac
    obtain ⟨l'', hvisits, hle⟩ := htail.of_mem (htail.mem_iff.mpr hcb)
    rw [h'.unique hvisits]
    exact Nat.lt_succ_of_le hle

/-- A walk that ends does not come back to a node. -/
theorem Visits.not_goesRound (h : Visits next a l) : ¬ GoesRound next a := by
  rintro ⟨b, hab, hbb⟩
  obtain ⟨l', hvisits, -⟩ := h.of_mem (h.mem_iff.mpr hab)
  exact Nat.lt_irrefl _ (hvisits.length_lt hbb hvisits)

theorem Visits.nodup (h : Visits next a l) : l.Nodup := by
  induction h with
  | stop _ => exact List.nodup_singleton _
  | @go a b l hgo htail ih =>
    refine List.nodup_cons.mpr ⟨?_, ih⟩
    intro ha
    have hround : TransGen (Link next) a a := TransGen.head' hgo (htail.mem_iff.mp ha)
    exact (Visits.go hgo htail).not_goesRound ⟨a, .refl, hround⟩

/-- A walk among finitely many nodes ends exactly if it does not come back to one. -/
theorem visits_iff (hfin : {b | ReflTransGen (Link next) a b}.Finite) :
    (∃ l, Visits next a l) ↔ ¬ GoesRound next a := by
  constructor
  · rintro ⟨l, h⟩
    exact h.not_goesRound
  · intro hround
    refine induction_of_acyclic (P := fun b => ∃ l, Visits next b l) hfin
      (fun b hab hbb => hround ⟨b, hab, hbb⟩) ?_
    intro b _ hall
    cases hnext : next b with
    | none => exact ⟨[b], .stop hnext⟩
    | some c =>
      obtain ⟨l, hvisits⟩ := hall c hnext
      exact ⟨b :: l, .go hnext hvisits⟩

end Walk

end ForStd
