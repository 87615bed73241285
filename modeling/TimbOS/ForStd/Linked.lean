import Mathlib

/-!
# Null-terminated singly linked lists

`Linked next null p l` says that the chain that starts at `p` and follows the
link function `next` visits exactly the nodes `l` and then meets `null`. The link
function is a parameter, so one memory may hold several such lists threaded
through different words.

## Key results

- `Linked.unique`: the chain determines the list
- `Linked.nodup`: a chain that ends never visits a node twice
- `Linked.congr`: only the links of the visited nodes matter
- `Linked.push`, `Linked.unlink`: the two edits of a list
-/

namespace ForStd

variable {α : Type*}

/-- The chain from `p` along `next` visits the nodes `l` and ends at `null`. -/
def Linked (next : α → α) (null : α) : α → List α → Prop
  | p, [] => p = null
  | p, a :: l => p = a ∧ a ≠ null ∧ Linked next null (next a) l

namespace Linked

variable {next next' : α → α} {null p a : α} {l l' : List α}

@[simp] theorem nil_iff : Linked next null p [] ↔ p = null := Iff.rfl

/-- A chain is empty exactly when it starts at `null`. -/
theorem eq_null_iff (h : Linked next null p l) : p = null ↔ l = [] := by
  cases l with
  | nil => simpa using h
  | cons a l =>
    obtain ⟨rfl, hne, _⟩ := h
    simp [hne]

/-- A chain that does not start at `null` starts with a node. -/
theorem exists_cons (h : Linked next null p l) (hp : p ≠ null) : ∃ l', l = p :: l' := by
  cases l with
  | nil => exact absurd h hp
  | cons a l =>
    obtain ⟨rfl, _, _⟩ := h
    exact ⟨l, rfl⟩

theorem ne_null_of_mem (h : Linked next null p l) (ha : a ∈ l) : a ≠ null := by
  induction l generalizing p with
  | nil => simp at ha
  | cons b l ih =>
    obtain ⟨_, hb, hl⟩ := h
    rcases List.mem_cons.mp ha with rfl | ha
    · exact hb
    · exact ih hl ha

/-- The start and the links determine the list. -/
theorem unique (h : Linked next null p l) (h' : Linked next null p l') : l = l' := by
  induction l generalizing p l' with
  | nil =>
    exact ((eq_null_iff h').mp h).symm
  | cons a l ih =>
    obtain ⟨rfl, hne, hl⟩ := h
    obtain ⟨l'', rfl⟩ := exists_cons h' hne
    rw [ih hl h'.2.2]

/-- The part of a chain from one of its nodes on. -/
theorem suffix (l₁ : List α) {l₂ : List α} (h : Linked next null p (l₁ ++ a :: l₂)) :
    Linked next null a (a :: l₂) := by
  induction l₁ generalizing p with
  | nil => exact ⟨rfl, h.2.1, h.2.2⟩
  | cons b l₁ ih => exact ih h.2.2

/-- A chain that ends never comes back to a node: the two suffixes from the two
    visits would be the same list. -/
theorem nodup (h : Linked next null p l) : l.Nodup := by
  induction l generalizing p with
  | nil => exact List.nodup_nil
  | cons a l ih =>
    refine List.nodup_cons.mpr ⟨fun ha => ?_, ih h.2.2⟩
    obtain ⟨l₁, l₂, rfl⟩ := List.append_of_mem ha
    have hlong : Linked next null a (a :: (l₁ ++ a :: l₂)) := suffix [] h
    have hshort : Linked next null a (a :: l₂) := suffix (a :: l₁) h
    have hlen := congrArg List.length (unique hlong hshort)
    simp only [List.length_cons, List.length_append] at hlen
    omega

/-- Only the links of the visited nodes matter. -/
theorem congr (h : Linked next null p l) (heq : ∀ a ∈ l, next' a = next a) :
    Linked next' null p l := by
  induction l generalizing p with
  | nil => exact h
  | cons a l ih =>
    refine ⟨h.1, h.2.1, ?_⟩
    rw [heq a List.mem_cons_self]
    exact ih h.2.2 fun b hb => heq b (List.mem_cons_of_mem a hb)

/-- Put a node in front of a chain. -/
theorem push (h : Linked next null p l) (ha : a ≠ null) (hnext : next a = p) :
    Linked next null a (a :: l) :=
  ⟨rfl, ha, hnext ▸ h⟩

/-- Take a node out of the middle of a chain by redirecting its predecessor `x`. -/
theorem unlink {x y : α} {l₁ l₂ : List α} (h : Linked next null p (l₁ ++ x :: y :: l₂))
    (hx : next' x = next y) (heq : ∀ a ∈ l₁ ++ x :: y :: l₂, a ≠ x → next' a = next a) :
    Linked next' null p (l₁ ++ x :: l₂) := by
  have hnodup := nodup h
  induction l₁ generalizing p with
  | nil =>
    obtain ⟨hp, hne, _, _, hl⟩ := h
    simp only [List.nil_append, List.nodup_cons, List.mem_cons, not_or] at hnodup
    refine ⟨hp, hne, ?_⟩
    rw [hx]
    refine congr hl fun a ha => heq a (by simp [ha]) ?_
    rintro rfl
    exact hnodup.1.2 ha
  | cons b l₁ ih =>
    obtain ⟨hp, hne, hl⟩ := h
    have hb : b ≠ x := by
      rintro rfl
      simp at hnodup
    refine ⟨hp, hne, ?_⟩
    rw [heq b (by simp) hb]
    exact ih hl (fun a ha => heq a (List.mem_cons_of_mem b ha)) (List.nodup_cons.mp hnodup).2

end Linked

end ForStd
