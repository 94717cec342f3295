import Mathlib.Data.List.Forall2
import Gateway.Table
/-!
# Tables with one entry for each key, and related tables

All operations keep it that a key has at most one entry (`Keyed`). Two tables are
related if they have the same keys in the same order and related values (`Related`),
which all operations keep too.
-/
namespace Gateway.Table

variable {κ α β : Type}

/-- No key has two entries. -/
def Keyed (t : Table κ α) : Prop := (t.entries.map (·.1)).Nodup

theorem keyed_empty : Keyed ({} : Table κ α) := .nil

/-- The same keys in the same order, once each, with related values. -/
structure Related (r : κ → α → β → Prop) (t : Table κ α) (u : Table κ β) : Prop where
  entries : List.Forall₂ (fun e e' => e.1 = e'.1 ∧ r e.1 e.2 e'.2) t.entries u.entries
  keyed : t.Keyed

variable {r r' : κ → α → β → Prop} {t : Table κ α} {u : Table κ β}

theorem related_empty : Related r {} {} := ⟨.nil, keyed_empty⟩

theorem Related.mono (h : Related r t u) (hr : ∀ k a b, r k a b → r' k a b) : Related r' t u :=
  ⟨h.entries.imp fun _ _ he => ⟨he.1, hr _ _ _ he.2⟩, h.keyed⟩

theorem Related.keyed_right (h : Related r t u) : u.Keyed := by
  obtain ⟨h, hk⟩ := h
  obtain ⟨l⟩ := t
  obtain ⟨m⟩ := u
  change List.Forall₂ _ l m at h
  have hkeys : l.map (·.1) = m.map (·.1) := by
    clear hk
    induction h with
    | nil => rfl
    | cons he _ ih => rw [List.map_cons, List.map_cons, he.1, ih]
  rw [Keyed] at hk ⊢
  exact hkeys ▸ hk

theorem Related.map_values {γ : Type} {f : α → γ} {g : β → γ} (h : Related r t u)
    (hf : ∀ k a b, r k a b → f a = g b) : t.values.map f = u.values.map g := by
  obtain ⟨h, -⟩ := h
  obtain ⟨l⟩ := t
  obtain ⟨m⟩ := u
  change List.Forall₂ _ l m at h
  show (l.map (·.2)).map f = (m.map (·.2)).map g
  induction h with
  | nil => rfl
  | cons he _ ih => rw [List.map_cons, List.map_cons, List.map_cons, List.map_cons, hf _ _ _ he.2, ih]

theorem related_of_notMem {l : List (κ × α)} {m : List (κ × β)} {k : κ}
    (h : List.Forall₂ (fun e e' => e.1 = e'.1 ∧ r e.1 e.2 e'.2) l m) (hk : k ∉ l.map (·.1))
    (hr : ∀ j a b, j ≠ k → r j a b → r' j a b) :
    List.Forall₂ (fun e e' => e.1 = e'.1 ∧ r' e.1 e.2 e'.2) l m := by
  induction h with
  | nil => exact .nil
  | cons he _ ih =>
    rw [List.map_cons, List.mem_cons, not_or] at hk
    exact .cons ⟨he.1, hr _ _ _ (Ne.symm hk.1) he.2⟩ (ih hk.2)

/-- The table with `f` of each value, under the same keys. -/
def mapValues (t : Table κ α) (f : α → β) : Table κ β := ⟨t.entries.map fun e => (e.1, f e.2)⟩

theorem Related.mapValues {γ : Type} {f : α → γ} {g : β → γ} (h : Related r t u)
    (hf : ∀ k a b, r k a b → f a = g b) : t.mapValues f = u.mapValues g := by
  obtain ⟨h, -⟩ := h
  obtain ⟨l⟩ := t
  obtain ⟨m⟩ := u
  change List.Forall₂ _ l m at h
  refine congrArg Table.mk ?_
  induction h with
  | nil => rfl
  | cons he _ ih => rw [List.map_cons, List.map_cons, he.1, hf _ _ _ he.2, ih]

variable [DecidableEq κ]

theorem Keyed.get?_of_mem (h : t.Keyed) {k : κ} {a : α} (hm : (k, a) ∈ t.entries) : t.get? k = some a := by
  obtain ⟨l⟩ := t
  change (l.map (·.1)).Nodup at h
  change (k, a) ∈ l at hm
  show Table.get?.go k l = some a
  induction l with
  | nil => cases hm
  | cons e l ih =>
    obtain ⟨j, b⟩ := e
    obtain ⟨hj, hl⟩ := List.nodup_cons.1 h
    rw [Table.get?.go]
    rcases List.mem_cons.1 hm with heq | hm
    · cases heq
      exact if_pos rfl
    · have hjk : j ≠ k := fun hjk => hj (hjk ▸ List.mem_map.2 ⟨_, hm, rfl⟩)
      rw [if_neg hjk]
      exact ih hl hm

theorem mem_of_get? {k : κ} {a : α} (h : t.get? k = some a) : (k, a) ∈ t.entries := by
  obtain ⟨l⟩ := t
  change Table.get?.go k l = some a at h
  show (k, a) ∈ l
  induction l with
  | nil => cases h
  | cons e l ih =>
    obtain ⟨j, b⟩ := e
    rw [Table.get?.go] at h
    split at h
    · rename_i hjk
      cases h
      exact hjk ▸ List.mem_cons_self
    · exact List.mem_cons_of_mem _ (ih h)

theorem insert_eq_modify (h : t.Keyed) {k : κ} {a : α} (hk : t.get? k = some a) (f : α → α) :
    t.insert k (f a) = t.modify k f := by
  obtain ⟨l⟩ := t
  change (l.map (·.1)).Nodup at h
  change Table.get?.go k l = some a at hk
  refine congrArg Table.mk ?_
  show Table.insert.go k (f a) l = l.map fun e => if e.1 = k then (e.1, f e.2) else (e.1, e.2)
  induction l with
  | nil => cases hk
  | cons e l ih =>
    obtain ⟨j, b⟩ := e
    obtain ⟨hj, hl⟩ := List.nodup_cons.1 h
    rw [Table.get?.go] at hk
    rw [Table.insert.go, List.map_cons]
    by_cases hjk : j = k
    · subst hjk
      rw [if_pos rfl] at hk
      cases hk
      have hrest : l.map (fun e => if e.1 = j then (e.1, f e.2) else (e.1, e.2)) = l := by
        refine (List.map_congr_left fun e he => ?_).trans (List.map_id l)
        have hej : e.1 ≠ j := fun hej => hj (hej ▸ List.mem_map.2 ⟨e, he, rfl⟩)
        exact if_neg hej
      rw [if_pos rfl, if_pos rfl, hrest]
    · rw [if_neg hjk] at hk
      rw [if_neg hjk, if_neg hjk, ih hl hk]

theorem modify_eq_self {k : κ} (h : t.get? k = none) (f : α → α) : t.modify k f = t := by
  obtain ⟨l⟩ := t
  change Table.get?.go k l = none at h
  refine congrArg Table.mk ?_
  show (l.map fun e => if e.1 = k then (e.1, f e.2) else (e.1, e.2)) = l
  induction l with
  | nil => rfl
  | cons e l ih =>
    obtain ⟨j, b⟩ := e
    rw [Table.get?.go] at h
    rw [List.map_cons]
    by_cases hjk : j = k
    · rw [if_pos hjk] at h
      cases h
    · rw [if_neg hjk] at h
      rw [if_neg hjk, ih h]

theorem mapValues_modify (t : Table κ α) {f : α → α} {f' : β → β} {g : α → β} (hf : ∀ a, g (f a) = f' (g a)) (k : κ) :
    (t.modify k f).mapValues g = (t.mapValues g).modify k f' := by
  refine congrArg Table.mk ?_
  rw [modify, mapValues, List.map_map, List.map_map]
  refine List.map_congr_left fun e _ => ?_
  simp only [Function.comp_apply]
  split
  · rw [hf]
  · rfl

theorem mapValues_erase (t : Table κ α) (f : α → β) (k : κ) : (t.erase k).mapValues f = (t.mapValues f).erase k := by
  rw [mapValues, mapValues, erase, erase, List.filter_map]
  rfl

/-! ## A key's value put in its place again, changed -/

theorem get?_insert_map {k : κ} {a : α} (h : t.get? k = some a) (f : α → α) (j : κ) :
    (t.insert k (f a)).get? j = if k = j then (t.get? j).map f else t.get? j := by
  rw [get?_insert]
  split
  · rename_i hj
    rw [← hj, h, Option.map_some]
  · rfl

theorem get?_of_fixed {k : κ} {f : α → α} (h : ∀ a, t.get? k = some a → f a = a) (j : κ) :
    t.get? j = if k = j then (t.get? j).map f else t.get? j := by
  split
  · rename_i hj
    cases ha : t.get? j with
    | none => rfl
    | some a => rw [Option.map_some, h a (hj ▸ ha)]
  · rfl

/-! ## What is read off the value of a key -/

variable {g : κ → α → Option β} {k : κ} {a a' : α}

theorem bind_insert (t : Table κ α) (g : κ → α → Option β) (k : κ) (a : α) (j : κ) :
    ((t.insert k a).get? j).bind (g j) = if k = j then g k a else (t.get? j).bind (g j) := by
  rw [get?_insert]
  split
  · rename_i hj
    rw [hj, Option.bind_some]
  · rfl

theorem bind_modify {f : α → α} (hg : ∀ a, g k (f a) = g k a) (j : κ) :
    ((t.modify k f).get? j).bind (g j) = (t.get? j).bind (g j) := by
  rw [get?_modify]
  split
  · rename_i hj
    subst hj
    cases t.get? k with
    | none => rfl
    | some a => exact hg a
  · rfl

theorem bind_erase (t : Table κ α) (g : κ → α → Option β) (k j : κ) :
    ((t.erase k).get? j).bind (g j) = if k = j then none else (t.get? j).bind (g j) := by
  rw [get?_erase]
  split <;> rfl

theorem bind_erase_same (hg : (t.get? k).bind (g k) = none) (j : κ) :
    ((t.erase k).get? j).bind (g j) = (t.get? j).bind (g j) := by
  rw [bind_erase]
  split
  · rename_i hj
    rw [← hj, hg]
  · rfl

/-! ## Sums over the values -/

omit [DecidableEq κ] in
@[simp] theorem sum_cons (f : α → Nat) (e : κ × α) (l : List (κ × α)) : sum f ⟨e :: l⟩ = f e.2 + sum f ⟨l⟩ := rfl

theorem sum_insert {f : α → Nat} (h : t.get? k = some a) (a' : α) : (t.insert k a').sum f + f a = t.sum f + f a' := by
  obtain ⟨l⟩ := t
  change get?.go k l = some a at h
  change sum f ⟨insert.go k a' l⟩ + f a = sum f ⟨l⟩ + f a'
  induction l with
  | nil => cases h
  | cons e l ih =>
    obtain ⟨j, b⟩ := e
    rw [get?.go] at h
    rw [insert.go]
    by_cases hj : j = k
    · rw [if_pos hj] at h ⊢
      cases h
      simp only [sum_cons]
      omega
    · rw [if_neg hj] at h ⊢
      have := ih h
      simp only [sum_cons]
      omega

theorem sum_insert_le (t : Table κ α) (f : α → Nat) (k : κ) (a : α) : (t.insert k a).sum f ≤ t.sum f + f a := by
  obtain ⟨l⟩ := t
  change sum f ⟨insert.go k a l⟩ ≤ sum f ⟨l⟩ + f a
  induction l with
  | nil => exact Nat.le_of_eq (Nat.add_comm _ _)
  | cons e l ih =>
    obtain ⟨j, b⟩ := e
    rw [insert.go]
    split <;> simp only [sum_cons] <;> omega

theorem sum_erase_le (t : Table κ α) (f : α → Nat) (k : κ) : (t.erase k).sum f ≤ t.sum f := by
  obtain ⟨l⟩ := t
  change sum f ⟨l.filter _⟩ ≤ sum f ⟨l⟩
  induction l with
  | nil => exact Nat.le_refl _
  | cons e l ih =>
    rw [List.filter_cons]
    split <;> simp only [sum_cons] <;> omega

theorem sum_erase_add_le (f : α → Nat) (h : t.get? k = some a) : (t.erase k).sum f + f a ≤ t.sum f := by
  obtain ⟨l⟩ := t
  change get?.go k l = some a at h
  change sum f ⟨l.filter _⟩ + f a ≤ sum f ⟨l⟩
  induction l with
  | nil => cases h
  | cons e l ih =>
    obtain ⟨j, b⟩ := e
    rw [get?.go] at h
    by_cases hj : j = k
    · rw [if_pos hj] at h
      cases h
      rw [List.filter_cons_of_neg (by simpa using hj), sum_cons]
      rw [Nat.add_comm]
      exact Nat.add_le_add_left (sum_erase_le ⟨l⟩ f k) (f a)
    · rw [if_neg hj] at h
      rw [List.filter_cons_of_pos (by simpa using hj), sum_cons, sum_cons]
      have := ih h
      omega

theorem sum_modify_le (t : Table κ α) (f : α → Nat) (k : κ) {g : α → α} (h : ∀ a, f (g a) ≤ f a) :
    (t.modify k g).sum f ≤ t.sum f := by
  obtain ⟨l⟩ := t
  change sum f ⟨l.map _⟩ ≤ sum f ⟨l⟩
  induction l with
  | nil => exact Nat.le_refl _
  | cons e l ih =>
    rw [List.map_cons, sum_cons, sum_cons]
    refine Nat.add_le_add ?_ ih
    obtain ⟨j, b⟩ := e
    dsimp only
    split
    · exact h b
    · exact Nat.le_refl _

/-! ## Operations on related tables -/

theorem keys_insert (l : List (κ × α)) (k : κ) (a : α) :
    (Table.insert.go k a l).map (·.1) = if k ∈ l.map (·.1) then l.map (·.1) else l.map (·.1) ++ [k] := by
  induction l with
  | nil => rfl
  | cons e l ih =>
    obtain ⟨j, b⟩ := e
    rw [Table.insert.go]
    by_cases hj : j = k
    · simp [hj]
    · simp only [if_neg hj, List.map_cons, ih, List.mem_cons, Ne.symm hj, false_or]
      split <;> rfl

theorem Keyed.insert (h : t.Keyed) (k : κ) (a : α) : (t.insert k a).Keyed := by
  show ((Table.insert.go k a t.entries).map (·.1)).Nodup
  rw [keys_insert]
  split
  · exact h
  · rename_i hk
    exact List.nodup_append.2 ⟨h, List.pairwise_singleton _ k, fun j hj i hi hji => hk (List.mem_singleton.1 hi ▸ hji ▸ hj)⟩

theorem Keyed.erase (h : t.Keyed) (k : κ) : (t.erase k).Keyed :=
  h.sublist (List.filter_sublist.map _)

theorem Keyed.modify (h : t.Keyed) (k : κ) (f : α → α) : (t.modify k f).Keyed := by
  have he : ((t.modify k f).entries.map (·.1)) = t.entries.map (·.1) := by
    rw [Table.modify, List.map_map]
    refine List.map_congr_left fun e _ => ?_
    simp only [Function.comp_apply]
    split <;> rfl
  rw [Keyed, he]
  exact h

theorem Related.get? (h : Related r t u) (k : κ) : Option.Rel (r k) (t.get? k) (u.get? k) := by
  obtain ⟨h, -⟩ := h
  obtain ⟨l⟩ := t
  obtain ⟨m⟩ := u
  change List.Forall₂ _ l m at h
  show Option.Rel (r k) (Table.get?.go k l) (Table.get?.go k m)
  induction h with
  | nil => exact .none
  | @cons e e' _ _ he _ ih =>
    obtain ⟨j, a⟩ := e
    obtain ⟨_, b⟩ := e'
    obtain ⟨rfl, hr⟩ := he
    rw [Table.get?.go, Table.get?.go]
    by_cases hj : j = k
    · rw [if_pos hj, if_pos hj]
      exact .some (hj ▸ hr)
    · rw [if_neg hj, if_neg hj]
      exact ih

/-- A key has nothing in both tables, or related values. -/
theorem Related.cases (h : Related r t u) (k : κ) : (t.get? k = none ∧ u.get? k = none) ∨
    ∃ a b, t.get? k = some a ∧ u.get? k = some b ∧ r k a b := by
  have hrel := h.get? k
  revert hrel
  cases t.get? k <;> cases u.get? k <;> rintro (hr | _)
  · exact .inl ⟨rfl, rfl⟩
  · exact .inr ⟨_, _, rfl, rfl, by assumption⟩

/-- What other keys have may be related in another way from then on. -/
theorem Related.insert (h : Related r t u) {k : κ} {a : α} {b : β} (hk : r' k a b)
    (hr : ∀ j a b, j ≠ k → r j a b → r' j a b) : Related r' (t.insert k a) (u.insert k b) := by
  refine ⟨?_, h.keyed.insert k a⟩
  obtain ⟨h, hn⟩ := h
  obtain ⟨l⟩ := t
  obtain ⟨m⟩ := u
  change List.Forall₂ _ l m at h
  change (l.map (·.1)).Nodup at hn
  show List.Forall₂ _ (Table.insert.go k a l) (Table.insert.go k b m)
  induction h with
  | nil => exact .cons ⟨rfl, hk⟩ .nil
  | @cons e e' l m he hl ih =>
    obtain ⟨j, a'⟩ := e
    obtain ⟨_, b'⟩ := e'
    obtain ⟨rfl, hj'⟩ := he
    obtain ⟨hj, hn⟩ := List.nodup_cons.1 hn
    rw [Table.insert.go, Table.insert.go]
    by_cases hjk : j = k
    · rw [if_pos hjk, if_pos hjk]
      exact .cons ⟨rfl, hk⟩ (related_of_notMem hl (hjk ▸ hj) hr)
    · rw [if_neg hjk, if_neg hjk]
      exact .cons ⟨rfl, hr _ _ _ hjk hj'⟩ (ih hn)

theorem Related.erase (h : Related r t u) (k : κ) : Related r (t.erase k) (u.erase k) := by
  refine ⟨List.rel_filter (fun {e} {e'} he => ?_) h.entries, h.keyed.erase k⟩
  simp only [he.1]

theorem Related.modify (h : Related r t u) {k : κ} {f : α → α} {g : β → β}
    (hf : ∀ a b, r k a b → r k (f a) (g b)) : Related r (t.modify k f) (u.modify k g) := by
  refine ⟨List.rel_map (fun {e} {e'} he => ?_) h.entries, h.keyed.modify k f⟩
  obtain ⟨j, a⟩ := e
  obtain ⟨_, b⟩ := e'
  obtain ⟨rfl, hr⟩ := he
  by_cases hj : j = k
  · subst hj
    simpa using hf a b hr
  · simpa [hj] using hr

end Gateway.Table
