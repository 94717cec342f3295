import Gateway.Proofs.Url.Grammar
/-!
# Showing what was read

A URL is shown without the marks of its empty parts. So what was read from a text is shown
as that text exactly if no mark in the text has an empty part beside it (`text_parse_iff`).
A scheme does not ensure that: a question mark may end the text.
-/
namespace Gateway.Url

/-- A part without which a URL is shown if it is empty. -/
def dropEmpty (part : Option Text) : Option Text := if part = some [] then none else part

/-- The parts that are shown. -/
def Parts.shown (p : Parts) : Parts :=
  { p with
    scheme := dropEmpty p.scheme
    userinfo := dropEmpty p.userinfo
    port := dropEmpty p.port
    query := dropEmpty p.query
    fragment := dropEmpty p.fragment }

/-- The parts that stand beside marks. -/
def Parts.marked (p : Parts) : List (Option Text) := [p.scheme, p.userinfo, p.port, p.query, p.fragment]

@[simp] theorem getD_dropEmpty (part : Option Text) : (dropEmpty part).getD [] = part.getD [] := by
  unfold dropEmpty
  split <;> simp_all

theorem mark_dropEmpty (m : Text) (part : Option Text) :
    mark m (dropEmpty part) = if part.getD [] = [] then [] else m := by
  cases part with
  | none => rfl
  | some t => by_cases h : t = [] <;> simp [mark, dropEmpty, h]

theorem size_mark_dropEmpty_le (m : Text) (part : Option Text) :
    Text.size (mark m (dropEmpty part)) ≤ Text.size (mark m part) := by
  by_cases h : part = some [] <;> simp [dropEmpty, mark, h, Text.size]

theorem ne_of_size_mark {m : Text} (hm : m ≠ []) {part : Option Text}
    (h : Text.size (mark m part) ≤ Text.size (mark m (dropEmpty part))) : some [] ≠ part := by
  rintro rfl
  exact hm (Text.size_eq_zero.1 (Nat.le_zero.1 h))

/-- A part and the mark behind it are shown together. -/
theorem shown_before (m : Text) (part : Option Text) :
    (if part.getD [] = [] then [] else part.getD [] ++ m) = part.getD [] ++ mark m (dropEmpty part) := by
  rw [mark_dropEmpty]
  split <;> simp_all

/-- A part and the mark in front of it are shown together. -/
theorem shown_after (c : Char) (part : Option Text) :
    (if part.getD [] = [] then [] else c :: part.getD []) = mark [c] (dropEmpty part) ++ part.getD [] := by
  rw [mark_dropEmpty]
  split <;> simp_all

variable (p : Parts)

theorem text_ofParts : (ofParts p).text = p.shown.text := by
  simp only [text, isEmpty_scheme, isEmpty_userinfo, isEmpty_port, isEmpty_query, isEmpty_fragment, schemeText_ofParts,
    userinfoText_ofParts, hostText_ofParts, portText_ofParts, pathText_ofParts, queryText_ofParts, fragmentText_ofParts,
    shown_before, shown_after]
  simp [Parts.text, Parts.pieces, Parts.shown]

/-- No mark is lost only if there is none beside an empty part: each that is lost makes the text shorter. -/
theorem Parts.shown_text_eq_iff : p.shown.text = p.text ↔ some [] ∉ p.marked := by
  constructor
  · intro h
    have hsize := congrArg Text.size h
    simp only [Parts.text, Parts.pieces, Parts.shown, getD_dropEmpty, List.flatten_cons, Text.size_append] at hsize
    have hscheme := size_mark_dropEmpty_le "://".toList p.scheme
    have huserinfo := size_mark_dropEmpty_le ['@'] p.userinfo
    have hport := size_mark_dropEmpty_le [':'] p.port
    have hquery := size_mark_dropEmpty_le ['?'] p.query
    have hfragment := size_mark_dropEmpty_le ['#'] p.fragment
    simp only [marked, List.mem_cons, List.not_mem_nil, or_false, not_or]
    exact ⟨ne_of_size_mark (m := "://".toList) (by decide) (by omega),
      ne_of_size_mark (m := ['@']) (by decide) (by omega), ne_of_size_mark (m := [':']) (by decide) (by omega),
      ne_of_size_mark (m := ['?']) (by decide) (by omega), ne_of_size_mark (m := ['#']) (by decide) (by omega)⟩
  · intro h
    simp only [marked, List.mem_cons, List.not_mem_nil, or_false, not_or] at h
    obtain ⟨hscheme, huserinfo, hport, hquery, hfragment⟩ := h
    simp [shown, dropEmpty, Ne.symm hscheme, Ne.symm huserinfo, Ne.symm hport, Ne.symm hquery, Ne.symm hfragment]

/-- What was read is shown as the text it was read from exactly if no part of it is there but empty. -/
theorem text_parse_iff (s : Text) : (parse s).text = s ↔ some [] ∉ (Parts.ofText s).marked := by
  rw [parse_eq, text_ofParts]
  nth_rewrite 2 [← (divides_ofText s).whole]
  exact Parts.shown_text_eq_iff _

/-- A scheme is not enough for that: the question mark that ends a text is not shown. -/
theorem not_round_trip : ¬ ∀ s : Text, (parse s).schemeText ≠ [] → (parse s).text = s := by
  intro h
  exact absurd (h "http://10.0.0.1/desc.xml?".toList (by decide)) (by decide)

end Gateway.Url
