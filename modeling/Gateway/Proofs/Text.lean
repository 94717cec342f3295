import Mathlib.Data.List.Infix
import Mathlib.Data.List.TakeWhile
import Mathlib.Tactic.NthRewrite
import Gateway.Text.Basic
/-!
# Cutting texts

A text that is put together from pieces is cut into the same pieces again: at a byte
offset always (`splitAt?_append`, `slice?_offsets`), at a separator if the separator does
not begin earlier (`cutAt?_eq_some_iff`), and at the end of a run of
characters if the run ends where the piece does (`takeWhile_dropWhile_append`). Words and
lines are read one by one from the front (`words_append`, `lines_append`).
-/
namespace Gateway.Text

/-! ## Offsets -/

@[simp] theorem size_append (s t : Text) : size (s ++ t) = size s + size t := by
  induction s with
  | nil => simp [size]
  | cons c s ih => simp only [List.cons_append, size, ih, Nat.add_assoc]

@[simp] theorem size_eq_zero {s : Text} : size s = 0 ↔ s = [] := by
  cases s with
  | nil => simp [size]
  | cons c s =>
    have := c.utf8Size_pos
    simp only [size, reduceCtorEq, iff_false]
    omega

theorem splitAt?_append (s t : Text) : splitAt? (size s) (s ++ t) = some (s, t) := by
  induction s with
  | nil => cases t <;> rfl
  | cons c s ih =>
    have := c.utf8Size_pos
    obtain ⟨n, hn⟩ : ∃ n, size (c :: s) = n + 1 := ⟨size (c :: s) - 1, by simp only [size]; omega⟩
    have hle : c.utf8Size ≤ n + 1 := by simp only [size] at hn; omega
    have hsub : n + 1 - c.utf8Size = size s := by simp only [size] at hn; omega
    simp only [hn, List.cons_append, splitAt?, hle, hsub, ih, if_true, Option.map_some]

theorem slice?_append (s t r : Text) : slice? (size s) (size s + size t) (s ++ t ++ r) = some t := by
  simp only [slice?, List.append_assoc, splitAt?_append, Option.bind_eq_bind, Option.bind_some,
    Nat.add_sub_cancel_left, Option.pure_def]

/-- Where each of some texts begins if they stand one after another from `n` on, and where the last ends. -/
def offsets (n : Nat) : List Text → List Nat
  | [] => [n]
  | s :: pieces => n :: offsets (n + size s) pieces

@[simp] theorem length_offsets (n : Nat) (pieces : List Text) : (offsets n pieces).length = pieces.length + 1 := by
  induction pieces generalizing n with
  | nil => rfl
  | cons s pieces ih => simp only [offsets, List.length_cons, ih]

theorem getElem_offsets (n : Nat) (pieces : List Text) (k : Nat) (hk : k < (offsets n pieces).length) :
    (offsets n pieces)[k] = n + size (pieces.take k).flatten := by
  induction pieces generalizing n k with
  | nil => simp [offsets, size]
  | cons s pieces ih =>
    cases k with
    | zero => simp [offsets, size]
    | succ k =>
      simp only [offsets, List.getElem_cons_succ, ih, List.take_succ_cons, List.flatten_cons, size_append,
        Nat.add_assoc]

theorem le_of_mem_offsets {n m : Nat} {pieces : List Text} (h : m ∈ offsets n pieces) : n ≤ m := by
  obtain ⟨k, hk, rfl⟩ := List.getElem_of_mem h
  rw [getElem_offsets]
  exact Nat.le_add_right _ _

theorem pairwise_offsets (n : Nat) (pieces : List Text) : (offsets n pieces).Pairwise (· ≤ ·) := by
  induction pieces generalizing n with
  | nil => exact List.pairwise_singleton _ _
  | cons s pieces ih => exact .cons (fun m hm => Nat.le_of_add_right_le (le_of_mem_offsets hm)) (ih _)

theorem exists_of_mem_offsets {m : Nat} {pieces : List Text} (h : m ∈ offsets 0 pieces) :
    ∃ front rest, pieces.flatten = front ++ rest ∧ m = size front := by
  obtain ⟨k, hk, rfl⟩ := List.getElem_of_mem h
  refine ⟨(pieces.take k).flatten, (pieces.drop k).flatten, ?_, by rw [getElem_offsets, Nat.zero_add]⟩
  rw [← List.flatten_append, List.take_append_drop]

theorem splitAt?_offsets (pieces : List Text) (k : Nat) (hk : k < (offsets 0 pieces).length) :
    splitAt? (offsets 0 pieces)[k] pieces.flatten = some ((pieces.take k).flatten, (pieces.drop k).flatten) := by
  rw [getElem_offsets, Nat.zero_add]
  nth_rewrite 2 [← List.take_append_drop k pieces]
  rw [List.flatten_append, splitAt?_append]

/-- Between two offsets stand the pieces between them. -/
theorem slice?_offsets (pieces : List Text) {i j : Nat} (hij : i ≤ j) (hj : j < (offsets 0 pieces).length) :
    slice? (offsets 0 pieces)[i] (offsets 0 pieces)[j] pieces.flatten =
      some ((pieces.drop i).take (j - i)).flatten := by
  obtain ⟨k, rfl⟩ := Nat.exists_eq_add_of_le hij
  have hi : (offsets 0 pieces)[i] = size (pieces.take i).flatten := by rw [getElem_offsets, Nat.zero_add]
  have hk : (offsets 0 pieces)[i + k] = size (pieces.take i).flatten + size ((pieces.drop i).take k).flatten := by
    rw [getElem_offsets, Nat.zero_add, List.take_add, List.flatten_append, size_append]
  have hwhole : pieces.flatten =
      (pieces.take i).flatten ++ ((pieces.drop i).take k).flatten ++ ((pieces.drop i).drop k).flatten := by
    rw [← List.flatten_append, ← List.flatten_append, List.append_assoc, List.take_append_drop,
      List.take_append_drop]
  rw [hi, hk, hwhole, slice?_append, Nat.add_sub_cancel_left]

/-! ## Separators -/

theorem after?_eq_some_iff {start s rest : Text} : after? start s = some rest ↔ s = start ++ rest := by
  induction start generalizing s with
  | nil => simp [after?, eq_comm]
  | cons p start ih =>
    cases s with
    | nil => simp [after?]
    | cons c s =>
      by_cases h : p = c
      · simp [after?, h, ih]
      · simp [after?, h, Ne.symm h]

theorem after?_eq_none_iff {start s : Text} : after? start s = none ↔ ¬ start <+: s := by
  rw [Option.eq_none_iff_forall_ne_some, List.IsPrefix, not_exists]
  exact forall_congr' fun rest => not_congr (after?_eq_some_iff.trans eq_comm)

theorem cutAt?_eq_none_iff {sep s : Text} : cutAt? sep s = none ↔ ¬ sep <:+: s := by
  induction s with
  | nil => simp only [cutAt?, Option.map_eq_none_iff, after?_eq_none_iff, List.prefix_nil, List.infix_nil]
  | cons c s ih =>
    rw [List.infix_cons_iff, not_or, ← ih, ← after?_eq_none_iff, cutAt?]
    cases after? sep (c :: s) <;> simp

/-- Whether a separator begins a text in which it comes later is decided before its last character comes there. -/
theorem prefix_append_iff {init front rest : Text} {last : Char} (hfront : front ≠ []) :
    init ++ [last] <+: front ++ (init ++ [last]) ++ rest ↔ init ++ [last] <+: front ++ init := by
  have hwhole : front ++ init <+: front ++ (init ++ [last]) ++ rest := ⟨last :: rest, by simp⟩
  refine ⟨fun h => List.prefix_of_prefix_length_le h hwhole ?_, fun h => h.trans hwhole⟩
  have := List.length_pos_iff.2 hfront
  simp only [List.length_append, List.length_singleton]
  omega

/-- A text is cut where the separator first comes: it neither comes in the front nor begins there. -/
theorem cutAt?_eq_some_iff {sep s front rest : Text} (hsep : sep ≠ []) :
    cutAt? sep s = some (front, rest) ↔ s = front ++ sep ++ rest ∧ ¬ sep <:+: front ++ sep.dropLast := by
  obtain ⟨init, last, rfl⟩ : ∃ init last, sep = init ++ [last] :=
    ⟨_, _, (List.dropLast_concat_getLast hsep).symm⟩
  rw [List.dropLast_concat]
  induction s generalizing front with
  | nil => simp [cutAt?, after?_eq_none_iff.2]
  | cons c s ih =>
    -- with a separator here the front is empty, for a longer one would have it at its head
    cases hc : after? (init ++ [last]) (c :: s) with
    | some after =>
      have hs := after?_eq_some_iff.1 hc
      simp only [cutAt?, hc, Option.some.injEq, Prod.mk.injEq]
      constructor
      · rintro ⟨rfl, rfl⟩
        refine ⟨hs, fun h => ?_⟩
        have hlen := h.length_le
        simp only [List.length_append, List.length_singleton, List.nil_append] at hlen
        omega
      · rintro ⟨heq, hfree⟩
        cases front with
        | nil => exact ⟨rfl, List.append_cancel_left (hs.symm.trans heq)⟩
        | cons d front =>
          have hpre : init ++ [last] <+: c :: s := ⟨after, hs.symm⟩
          rw [heq, prefix_append_iff (List.cons_ne_nil d front)] at hpre
          exact absurd hpre.isInfix hfree
    | none =>
      have hpre := after?_eq_none_iff.1 hc
      simp only [cutAt?, hc, Option.map_eq_some_iff, Prod.exists, Prod.mk.injEq]
      constructor
      · rintro ⟨front, rest, hcut, rfl, rfl⟩
        obtain ⟨rfl, hfree⟩ := ih.1 hcut
        rw [← List.cons_append, ← List.cons_append, prefix_append_iff (List.cons_ne_nil c front)] at hpre
        exact ⟨rfl, fun h => (List.infix_cons_iff.1 h).elim hpre hfree⟩
      · rintro ⟨heq, hfree⟩
        cases front with
        | nil => exact absurd ⟨rest, heq.symm⟩ hpre
        | cons d front =>
          obtain ⟨rfl, rfl⟩ := List.cons.inj heq
          exact ⟨front, rest, ih.2 ⟨rfl, fun h => hfree (List.infix_cons_iff.2 (.inr h))⟩, rfl, rfl⟩

/-- A single character stands first where it does not stand before, -/
theorem cutAt?_singleton_eq_some_iff {sep : Char} {s front rest : Text} :
    cutAt? [sep] s = some (front, rest) ↔ s = front ++ sep :: rest ∧ sep ∉ front := by
  rw [cutAt?_eq_some_iff (List.cons_ne_nil sep []), List.dropLast_singleton, List.append_nil, List.singleton_infix_iff,
    List.append_assoc, List.singleton_append]

/-- and nowhere in a text that does not have it. -/
theorem cutAt?_singleton_eq_none_iff {sep : Char} {s : Text} : cutAt? [sep] s = none ↔ sep ∉ s := by
  rw [cutAt?_eq_none_iff, List.singleton_infix_iff]

/-! ## Runs of characters -/

theorem forall_bne {a : Char} {s : Text} : (∀ c ∈ s, (c != a) = true) ↔ a ∉ s := by
  simp only [bne_iff_ne, ne_eq]
  exact ⟨fun h ha => h a ha rfl, fun h c hc e => h (e ▸ hc)⟩

theorem forall_bne_bne {a b : Char} {s : Text} : (∀ c ∈ s, (c != a && c != b) = true) ↔ a ∉ s ∧ b ∉ s := by
  simp only [Bool.and_eq_true, forall_and, forall_bne]

/-- A text is the longest run of characters with a property at its front and a rest that does not go on with one. -/
theorem takeWhile_dropWhile_spec (p : Char → Bool) (s : Text) :
    s = s.takeWhile p ++ s.dropWhile p ∧ (∀ c ∈ s.takeWhile p, p c = true) ∧
      ∀ c ∈ (s.dropWhile p).head?, p c = false := by
  refine ⟨List.takeWhile_append_dropWhile.symm, List.all_eq_true.1 List.all_takeWhile, fun c hc => ?_⟩
  have := List.head?_dropWhile_not p s
  rw [Option.mem_def.1 hc] at this
  simpa using this

theorem takeWhile_dropWhile_append (p : Char → Bool) {front : Text} (rest : Text)
    (hfront : ∀ c ∈ front, p c = true) (hrest : ∀ c ∈ rest.head?, p c = false) :
    (front ++ rest).takeWhile p = front ∧ (front ++ rest).dropWhile p = rest := by
  rw [List.takeWhile_append_of_pos hfront, List.dropWhile_append_of_pos hfront]
  cases rest with
  | nil => simp
  | cons c rest => simp [hrest c rfl]

/-! ## Parts -/

theorem length_splitOn (sep : Char) (s : Text) : (s.splitOn sep).length = s.count sep + 1 := by
  induction s with
  | nil => rfl
  | cons c s ih =>
    rw [List.splitOn_cons_eq_if_modifyHead, List.count_cons]
    split
    · rw [List.length_cons, ih]
    · rw [List.length_modifyHead, ih, Nat.add_zero]

theorem mem_tail_splitOn {sep : Char} {part : Text} (h : sep ∉ part) (front rest : Text) :
    part ∈ (List.splitOn sep (front ++ sep :: part ++ sep :: rest)).tail := by
  obtain ⟨first, parts, hparts⟩ := List.exists_cons_of_ne_nil (List.splitOn_ne_nil sep front)
  -- what comes before the first separator is no part of the tail, however long it is
  rw [List.append_assoc, List.cons_append, List.splitOn_append_cons_self, hparts, List.cons_append, List.tail_cons,
    List.splitOn_append_cons_self_of_not_mem h]
  exact List.mem_append_right _ List.mem_cons_self

/-! ## Blanks -/

/-- A text is as it is once trimmed unless a blank stands at one of its ends. -/
theorem trim_of_ends {s : Text} (hfirst : ∀ c ∈ s.head?, isBlank c = false) (hlast : ∀ c ∈ s.getLast?, isBlank c = false) :
    trim s = s := by
  have hdrop : ∀ t : Text, (∀ c ∈ t.head?, isBlank c = false) → t.dropWhile isBlank = t := by
    intro t ht
    cases t with
    | nil => rfl
    | cons c t => rw [List.dropWhile_cons, ht c rfl, if_neg Bool.false_ne_true]
  rw [trim, hdrop s hfirst, hdrop s.reverse (by rwa [List.head?_reverse]), List.reverse_reverse]

theorem trim_of_nonblank {s : Text} (h : ∀ c ∈ s, isBlank c = false) : trim s = s :=
  trim_of_ends (fun c hc => h c (List.mem_of_mem_head? hc)) fun c hc => h c (List.mem_of_mem_getLast? hc)

/-- Blanks in front of a text make no difference once it is trimmed, -/
theorem trim_blank_append {blanks : Text} (h : ∀ c ∈ blanks, isBlank c = true) (s : Text) : trim (blanks ++ s) = trim s := by
  rw [trim, List.dropWhile_append_of_pos h, trim]

/-- nor do blanks behind it. -/
theorem trim_append_blank {blanks : Text} (h : ∀ c ∈ blanks, isBlank c = true) (s : Text) : trim (s ++ blanks) = trim s := by
  rw [trim, trim, List.dropWhile_append]
  cases hs : (s.dropWhile isBlank).isEmpty with
  | true => simp [List.isEmpty_iff.1 hs, List.dropWhile_eq_nil_iff.2 h]
  | false =>
    rw [if_neg Bool.false_ne_true, List.reverse_append,
      List.dropWhile_append_of_pos fun c hc => h c (List.mem_reverse.1 hc)]

theorem trim_of_blank {s : Text} (h : ∀ c ∈ s, isBlank c = true) : trim s = [] := by
  rw [trim, List.dropWhile_eq_nil_iff.2 h]
  rfl

/-! ## Words and lines -/

theorem words_blank_append {blanks : Text} (h : ∀ c ∈ blanks, isBlank c = true) (s : Text) : words (blanks ++ s) = words s := by
  induction blanks with
  | nil => rfl
  | cons c blanks ih =>
    rw [List.cons_append, words.eq_def, ← ih fun d hd => h d (List.mem_cons_of_mem _ hd)]
    exact if_pos (h c List.mem_cons_self)

/-- A word goes up to the first blank. -/
theorem words_append {word rest : Text} (hne : word ≠ []) (hword : ∀ c ∈ word, isBlank c = false)
    (hrest : ∀ c ∈ rest.head?, isBlank c = true) : words (word ++ rest) = word :: words rest := by
  induction word with
  | nil => exact absurd rfl hne
  | cons c word ih =>
    have hc : isBlank c = false := hword c List.mem_cons_self
    rw [List.cons_append, words.eq_def]
    simp only [hc, Bool.false_eq_true, if_false]
    cases word with
    | nil =>
      cases rest with
      | nil => rfl
      | cons d rest => exact if_pos (hrest d rfl)
    | cons d word =>
      have hd : isBlank d = false := hword d (List.mem_cons_of_mem _ List.mem_cons_self)
      rw [ih (List.cons_ne_nil d word) fun x hx => hword x (List.mem_cons_of_mem _ hx)]
      simp only [List.cons_append, hd, Bool.false_eq_true, if_false]

theorem dropReturn_concat (s : Text) : dropReturn (s ++ ['\r']) = s := by
  induction s with
  | nil => rfl
  | cons c s ih =>
    rw [List.cons_append, dropReturn, ih]
    simp

/-- Of a line nothing but a carriage return at its end is dropped. -/
theorem dropReturn_cases (s : Text) : dropReturn s = s ∨ s = dropReturn s ++ ['\r'] := by
  fun_induction dropReturn s with
  | case1 => exact .inl rfl
  | case2 => exact .inr rfl
  | case3 c s _ ih =>
    rcases ih with h | h
    · exact .inl (congrArg (c :: ·) h)
    · exact .inr (congrArg (c :: ·) h)

/-- The first line of a text, and the lines behind it. -/
theorem lines_append {line : Text} (h : '\n' ∉ line) (rest : Text) :
    lines (line ++ '\n' :: rest) = dropReturn line :: lines rest := by
  obtain ⟨part, parts, hparts⟩ := List.exists_cons_of_ne_nil (List.splitOn_ne_nil '\n' rest)
  simp [lines, List.splitOn_append_cons_self_of_not_mem h, hparts]

/-! ## Letters -/

/-- Neither a blank nor a colon is a letter. -/
theorem outside_letters {c : Char} (h : isBlank c = true ∨ c = ':') : c.toNat < 65 ∨ 122 < c.toNat := by
  rcases h with h | rfl
  · simp only [isBlank, Bool.or_eq_true, Bool.and_eq_true, decide_eq_true_eq] at h
    omega
  · decide

/-- What is outside of the letters is the same in capitals, -/
theorem toUpper_outside {c : Char} (h : c.toNat < 65 ∨ 122 < c.toNat) : c.toUpper = c := by
  refine dif_neg ?_
  rintro ⟨hlow, hhigh⟩
  have hlow : 97 ≤ c.toNat := UInt32.le_iff_toNat_le.1 hlow
  have hhigh : c.toNat ≤ 122 := UInt32.le_iff_toNat_le.1 hhigh
  omega

/-- and in small letters. -/
theorem toLower_outside {c : Char} (h : c.toNat < 65 ∨ 122 < c.toNat) : c.toLower = c := by
  refine dif_neg ?_
  rintro ⟨hlow, hhigh⟩
  have hlow : 65 ≤ c.toNat := UInt32.le_iff_toNat_le.1 hlow
  have hhigh : c.toNat ≤ 90 := UInt32.le_iff_toNat_le.1 hhigh
  omega

end Gateway.Text
