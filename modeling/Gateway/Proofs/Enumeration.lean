import Mathlib.Tactic.Choose
/-!
# Enumerations

A list enumerates a relation between places and values if it holds, in the order of
the places, the value at every place that has one. Filters, maps and nested walks of
enumerations are enumerations again; the places of a nested walk are pairs.
-/
namespace Gateway

/-- `l` holds exactly the values that `R` puts at some place, in the order of the places. -/
def Enumerates {ι β : Type} (before : ι → ι → Prop) (R : ι → β → Prop) (l : List β) : Prop :=
  ∃ entries : List (ι × β), entries.Pairwise (fun a b => before a.1 b.1) ∧
    (∀ i b, (i, b) ∈ entries ↔ R i b) ∧ entries.map (·.2) = l

namespace Enumerates

variable {ι κ β γ : Type} {before : ι → ι → Prop} {before' : κ → κ → Prop}

theorem congr {R R' : ι → β → Prop} {l : List β} (h : Enumerates before R l) (hR : ∀ i b, R i b ↔ R' i b) :
    Enumerates before R' l := by
  obtain ⟨entries, ho, hm, rfl⟩ := h
  exact ⟨entries, ho, fun i b => (hm i b).trans (hR i b), rfl⟩

theorem mem_iff {R : ι → β → Prop} {l : List β} (h : Enumerates before R l) {b : β} : b ∈ l ↔ ∃ i, R i b := by
  obtain ⟨entries, -, hm, rfl⟩ := h
  simp [hm]

theorem of_none {R : ι → β → Prop} (h : ∀ i b, ¬ R i b) : Enumerates before R [] :=
  ⟨[], .nil, fun i b => by simp [h], rfl⟩

theorem map {R : ι → β → Prop} {l : List β} (h : Enumerates before R l) (f : β → γ) :
    Enumerates before (fun i c => ∃ b, R i b ∧ c = f b) (l.map f) := by
  obtain ⟨entries, ho, hm, rfl⟩ := h
  refine ⟨entries.map fun e => (e.1, f e.2), List.pairwise_map.2 ho, fun i c => ?_, by simp⟩
  constructor
  · intro hc
    obtain ⟨⟨j, b⟩, he, heq⟩ := List.mem_map.1 hc
    cases heq
    exact ⟨b, (hm j b).1 he, rfl⟩
  · rintro ⟨b, hb, rfl⟩
    exact List.mem_map.2 ⟨(i, b), (hm i b).2 hb, rfl⟩

theorem filterMap {R : ι → β → Prop} {l : List β} (h : Enumerates before R l) (f : β → Option γ) :
    Enumerates before (fun i c => ∃ b, R i b ∧ f b = some c) (l.filterMap f) := by
  obtain ⟨entries, ho, hm, rfl⟩ := h
  refine ⟨entries.filterMap fun e => (f e.2).map fun c => (e.1, c), ?_, fun i c => ?_, ?_⟩
  · refine List.pairwise_filterMap.2 (ho.imp fun {e e'} he x hx y hy => ?_)
    obtain ⟨_, -, rfl⟩ := Option.map_eq_some_iff.1 hx
    obtain ⟨_, -, rfl⟩ := Option.map_eq_some_iff.1 hy
    exact he
  · constructor
    · intro hc
      obtain ⟨⟨j, b⟩, he, heq⟩ := List.mem_filterMap.1 hc
      obtain ⟨_, hf, heq⟩ := Option.map_eq_some_iff.1 heq
      cases heq
      exact ⟨b, (hm j b).1 he, hf⟩
    · rintro ⟨b, hb, hf⟩
      exact List.mem_filterMap.2 ⟨(i, b), (hm i b).2 hb, by simp [hf]⟩
  · rw [List.map_filterMap, List.filterMap_map]
    congr 1
    funext e
    simp only [Option.map_map, Function.comp_def, Option.map_id']

theorem flatMap {R : ι → β → Prop} {S : β → κ → γ → Prop} {l : List β} {f : β → List γ}
    (h : Enumerates before R l) (hf : ∀ b, Enumerates before' (S b) (f b)) :
    Enumerates (Prod.Lex before before') (fun p c => ∃ b, R p.1 b ∧ S b p.2 c) (l.flatMap f) := by
  obtain ⟨entries, ho, hm, rfl⟩ := h
  choose inner hio him hil using hf
  refine ⟨entries.flatMap fun e => (inner e.2).map fun x => ((e.1, x.1), x.2), ?_, ?_, ?_⟩
  · refine List.pairwise_flatMap.2 ⟨fun e _ => ?_, ho.imp fun he x hx y hy => ?_⟩
    · exact List.pairwise_map.2 ((hio e.2).imp fun hxy => .right _ hxy)
    · obtain ⟨_, _, rfl⟩ := List.mem_map.1 hx
      obtain ⟨_, _, rfl⟩ := List.mem_map.1 hy
      exact .left _ _ he
  · rintro ⟨i, j⟩ c
    constructor
    · intro hc
      obtain ⟨⟨_, b⟩, he, hx⟩ := List.mem_flatMap.1 hc
      obtain ⟨⟨_, _⟩, hi, heq⟩ := List.mem_map.1 hx
      cases heq
      exact ⟨b, (hm _ b).1 he, (him b _ _).1 hi⟩
    · rintro ⟨b, hb, hc⟩
      exact List.mem_flatMap.2 ⟨(i, b), (hm i b).2 hb, List.mem_map.2 ⟨(j, c), (him b j c).2 hc, rfl⟩⟩
  · rw [List.map_flatMap, List.flatMap_map]
    congr 1
    funext e
    rw [← hil e.2, List.map_map]
    rfl

/-! ## Lists in which places are numbers -/

variable {R : Nat → β → Prop} {l : List β}

/-- What is enumerated behind a first place that has no value. -/
theorem skip (h : Enumerates (· < ·) (fun i b => R (i + 1) b) l) (h0 : ∀ b, ¬ R 0 b) :
    Enumerates (· < ·) R l := by
  obtain ⟨entries, ho, hm, rfl⟩ := h
  refine ⟨entries.map fun e => (e.1 + 1, e.2), ?_, fun i b => ?_, by simp⟩
  · exact List.pairwise_map.2 (ho.imp fun h => Nat.succ_lt_succ h)
  · cases i with
    | zero => simp [h0]
    | succ i => simpa using hm i b

/-- What is enumerated behind a first place that has the value `x`. -/
theorem cons (h : Enumerates (· < ·) (fun i b => R (i + 1) b) l) {x : β} (h0 : ∀ b, R 0 b ↔ b = x) :
    Enumerates (· < ·) R (x :: l) := by
  obtain ⟨entries, ho, hm, rfl⟩ := h
  refine ⟨(0, x) :: entries.map fun e => (e.1 + 1, e.2), ?_, fun i b => ?_, by simp⟩
  · refine List.pairwise_cons.2 ⟨fun e he => ?_, List.pairwise_map.2 (ho.imp fun h => Nat.succ_lt_succ h)⟩
    obtain ⟨_, _, rfl⟩ := List.mem_map.1 he
    exact Nat.succ_pos _
  · cases i with
    | zero => simp [h0]
    | succ i => simpa using hm i b

theorem filter (p : β → Bool) (l : List β) :
    Enumerates (· < ·) (fun (i : Nat) b => l[i]? = some b ∧ p b = true) (l.filter p) := by
  induction l with
  | nil => exact of_none (by simp)
  | cons x l ih =>
    have ih' : Enumerates (· < ·) (fun (i : Nat) b => (x :: l)[i + 1]? = some b ∧ p b = true) (l.filter p) :=
      ih.congr fun i b => by rw [List.getElem?_cons_succ]
    by_cases hx : p x = true
    · rw [List.filter_cons_of_pos hx]
      refine cons ih' fun b => ?_
      simp only [List.getElem?_cons_zero, Option.some.injEq]
      constructor
      · rintro ⟨rfl, -⟩; rfl
      · rintro rfl; exact ⟨rfl, hx⟩
    · rw [List.filter_cons_of_neg hx]
      refine skip ih' fun b => ?_
      simp only [List.getElem?_cons_zero, Option.some.injEq]
      rintro ⟨rfl, h⟩
      exact hx h

end Enumerates

end Gateway
