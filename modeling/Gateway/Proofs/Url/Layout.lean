import Gateway.Url
import Gateway.Proofs.Text
/-!
# URLs laid out

A URL that is read is the layout of its parts over the text that they make up
(`ofParts`). For such a URL, whatever its parts are, we find what each span shows
(`bounds_ofParts` and what follows from it) and that replacing the path in place gives
the layout of the parts with the new path (`replacePath_ofParts`).
-/
namespace Gateway.Url

/-! ## Parts and marks -/

/-- The mark beside a part, if the part is there. -/
def mark (m : Text) (part : Option Text) : Text := if part.isSome then m else []

/-- The parts and, before and after them, the marks that divide them. Nothing divides the port from the path. -/
def Parts.pieces (p : Parts) : List Text :=
  [p.scheme.getD [], mark "://".toList p.scheme, p.userinfo.getD [], mark ['@'] p.userinfo, p.host,
    mark [':'] p.port, p.port.getD [], [], p.path, mark ['?'] p.query, p.query.getD [], mark ['#'] p.fragment,
    p.fragment.getD []]

/-- The text that the parts make up. -/
def Parts.text (p : Parts) : Text := p.pieces.flatten

/-- The parts over the text that they make up. -/
def ofParts (p : Parts) : Url := layOut p.text p

/-- The parts with another path. -/
def Parts.withPath (p : Parts) (path : Text) : Parts := { p with path := path }

theorem size_mark (m : Text) (part : Option Text) : (mark m part).size = if part.isSome then m.size else 0 := by
  unfold mark
  split <;> rfl

theorem spanAfterMark_eq (n : Nat) (part : Option Text) :
    spanAfterMark n part =
      ⟨n + if part.isSome then 1 else 0, n + (if part.isSome then 1 else 0) + Text.size (part.getD [])⟩ := by
  cases part <;> rfl

/-! ## Bounds -/

/-- Where the parts begin and end. -/
def bounds (u : Url) : List Nat :=
  [u.scheme.start, u.scheme.stop, u.userinfo.start, u.userinfo.stop, u.host.start, u.host.stop, u.port.start,
    u.port.stop, u.path.start, u.path.stop, u.query.start, u.query.stop, u.fragment.start, u.fragment.stop]

@[simp] theorem length_bounds (u : Url) : u.bounds.length = 14 := rfl

/-- The spans come in order, within the buffer, and each begins and ends between two characters of it. -/
structure InPlace (u : Url) : Prop where
  ordered : u.bounds.Pairwise (· ≤ ·)
  inside : ∀ n ∈ u.bounds, n ≤ Text.size u.buffer
  between : ∀ n ∈ u.bounds, (Text.splitAt? n u.buffer).isSome

variable (p : Parts)

/-- The spans of parts account for every byte: from each bound to the next there is one piece. -/
theorem bounds_ofParts : (ofParts p).bounds = Text.offsets 0 p.pieces := by
  have hsize : Text.size [':', '/', '/'] = 3 ∧ Text.size ['@'] = 1 ∧ Text.size [':'] = 1 ∧ Text.size ['?'] = 1 ∧
    Text.size ['#'] = 1 ∧ Text.size [] = 0 := by decide
  obtain ⟨scheme, userinfo, host, port, path, query, fragment⟩ := p
  cases scheme <;> cases userinfo <;>
    simp [bounds, ofParts, layOut, Parts.pieces, Text.offsets, spanAfterMark_eq, size_mark, hsize, Span.emptyAt]

theorem inPlace_ofParts : (ofParts p).InPlace := by
  have hmem : ∀ n ∈ (ofParts p).bounds, ∃ front rest, (ofParts p).buffer = front ++ rest ∧ n = Text.size front :=
    fun n hn => Text.exists_of_mem_offsets (bounds_ofParts p ▸ hn)
  refine ⟨?_, fun n hn => ?_, fun n hn => ?_⟩
  · rw [bounds_ofParts]
    exact Text.pairwise_offsets 0 p.pieces
  · obtain ⟨front, rest, hbuffer, rfl⟩ := hmem n hn
    rw [hbuffer, Text.size_append]
    exact Nat.le_add_right _ _
  · obtain ⟨front, rest, hbuffer, rfl⟩ := hmem n hn
    rw [hbuffer, Text.splitAt?_append]
    rfl

/-- What stands between two of the bounds. -/
theorem get_bounds (i j : Nat) (hij : i ≤ j) (hj : j < (ofParts p).bounds.length) :
    (ofParts p).get ⟨(ofParts p).bounds[i], (ofParts p).bounds[j]⟩ = ((p.pieces.drop i).take (j - i)).flatten := by
  have hslice : Text.slice? (ofParts p).bounds[i] (ofParts p).bounds[j] p.text =
      some ((p.pieces.drop i).take (j - i)).flatten := by
    simp only [bounds_ofParts]
    exact Text.slice?_offsets p.pieces hij (by simpa [bounds_ofParts] using hj)
  exact congrArg (·.getD []) hslice

theorem isEmpty_bounds (k : Nat) (hk : k + 1 < (ofParts p).bounds.length) :
    Span.isEmpty ⟨(ofParts p).bounds[k], (ofParts p).bounds[k + 1]⟩ = true ↔
      ((p.pieces.drop k).take 1).flatten = [] := by
  rw [Span.isEmpty, decide_eq_true_iff, ← Text.size_eq_zero]
  simp only [bounds_ofParts, Text.getElem_offsets, List.take_add, List.flatten_append, Text.size_append]
  omega

/-! ## What the spans show -/

@[simp] theorem buffer_ofParts : (ofParts p).buffer = p.text := rfl

@[simp] theorem schemeText_ofParts : (ofParts p).schemeText = p.scheme.getD [] :=
  (get_bounds p 0 1 (by decide) (by simp)).trans (List.append_nil _)

@[simp] theorem userinfoText_ofParts : (ofParts p).userinfoText = p.userinfo.getD [] :=
  (get_bounds p 2 3 (by decide) (by simp)).trans (List.append_nil _)

@[simp] theorem hostText_ofParts : (ofParts p).hostText = p.host :=
  (get_bounds p 4 5 (by decide) (by simp)).trans (List.append_nil _)

@[simp] theorem portText_ofParts : (ofParts p).portText = p.port.getD [] :=
  (get_bounds p 6 7 (by decide) (by simp)).trans (List.append_nil _)

@[simp] theorem pathText_ofParts : (ofParts p).pathText = p.path :=
  (get_bounds p 8 9 (by decide) (by simp)).trans (List.append_nil _)

@[simp] theorem queryText_ofParts : (ofParts p).queryText = p.query.getD [] :=
  (get_bounds p 10 11 (by decide) (by simp)).trans (List.append_nil _)

@[simp] theorem fragmentText_ofParts : (ofParts p).fragmentText = p.fragment.getD [] :=
  (get_bounds p 12 13 (by decide) (by simp)).trans (List.append_nil _)

@[simp] theorem isEmpty_scheme : (ofParts p).scheme.isEmpty = true ↔ p.scheme.getD [] = [] :=
  (isEmpty_bounds p 0 (by simp)).trans (by simp [Parts.pieces])

@[simp] theorem isEmpty_userinfo : (ofParts p).userinfo.isEmpty = true ↔ p.userinfo.getD [] = [] :=
  (isEmpty_bounds p 2 (by simp)).trans (by simp [Parts.pieces])

@[simp] theorem isEmpty_port : (ofParts p).port.isEmpty = true ↔ p.port.getD [] = [] :=
  (isEmpty_bounds p 6 (by simp)).trans (by simp [Parts.pieces])

@[simp] theorem isEmpty_path : (ofParts p).path.isEmpty = true ↔ p.path = [] :=
  (isEmpty_bounds p 8 (by simp)).trans (by simp [Parts.pieces])

@[simp] theorem isEmpty_query : (ofParts p).query.isEmpty = true ↔ p.query.getD [] = [] :=
  (isEmpty_bounds p 10 (by simp)).trans (by simp [Parts.pieces])

@[simp] theorem isEmpty_fragment : (ofParts p).fragment.isEmpty = true ↔ p.fragment.getD [] = [] :=
  (isEmpty_bounds p 12 (by simp)).trans (by simp [Parts.pieces])

theorem hostAndPort_ofParts :
    (ofParts p).hostAndPort = if p.port.getD [] = [] then p.host else p.host ++ ':' :: p.port.getD [] := by
  have hboth : (ofParts p).get ⟨(ofParts p).host.start, (ofParts p).port.stop⟩ =
      p.host ++ mark [':'] p.port ++ p.port.getD [] :=
    (get_bounds p 4 7 (by decide) (by simp)).trans (by simp [Parts.pieces])
  simp only [hostAndPort, isEmpty_port, hostText_ofParts, hboth]
  cases p.port with
  | none => rfl
  | some port => simp [mark]

/-! ## Another path -/

theorem query_ofParts : (ofParts p).query = spanAfterMark (ofParts p).path.stop p.query := rfl

theorem fragment_ofParts : (ofParts p).fragment = spanAfterMark (ofParts p).query.stop p.fragment := rfl

theorem stop_spanAfterMark (n : Nat) (part : Option Text) :
    (spanAfterMark n part).stop = n + ((if part.isSome then 1 else 0) + Text.size (part.getD [])) := by
  rw [spanAfterMark_eq, Nat.add_assoc]

theorem rebase_spanAfterMark (n m k : Nat) (part : Option Text) :
    (spanAfterMark (n + k) part).rebase n m = spanAfterMark (m + k) part := by
  simp only [spanAfterMark_eq, Span.rebase, Span.mk.injEq]
  omega

/-- What stands in front of the path and what stands behind it. -/
theorem splitAt?_path :
    Text.splitAt? (ofParts p).path.start p.text =
      some ((p.pieces.take 8).flatten, p.path ++ (p.pieces.drop 9).flatten) ∧
    Text.splitAt? (ofParts p).path.stop p.text =
      some ((p.pieces.take 8).flatten ++ p.path, (p.pieces.drop 9).flatten) := by
  have hstart := Text.splitAt?_offsets p.pieces 8 (by simp [Parts.pieces])
  have hstop := Text.splitAt?_offsets p.pieces 9 (by simp [Parts.pieces])
  simp only [← bounds_ofParts] at hstart hstop
  exact ⟨hstart, hstop.trans (by simp [Parts.pieces])⟩

theorem replacePath_ofParts (path : Text) : (ofParts p).replacePath path = ofParts (p.withPath path) := by
  have hbuffer : ((ofParts p).replacePath path).buffer = (ofParts (p.withPath path)).buffer := by
    obtain ⟨hfront, hrest⟩ := splitAt?_path p
    simp only [replacePath, buffer_ofParts, hfront, hrest]
    simp [Parts.text, Parts.pieces, Parts.withPath]
  have hquery : ((ofParts p).replacePath path).query = (ofParts (p.withPath path)).query :=
    rebase_spanAfterMark (ofParts p).path.stop _ 0 p.query
  have hfragment : ((ofParts p).replacePath path).fragment = (ofParts (p.withPath path)).fragment := by
    -- the fragment begins as far behind the path as the query with its mark is long
    show (ofParts p).fragment.rebase (ofParts p).path.stop (ofParts (p.withPath path)).path.stop = _
    rw [fragment_ofParts, fragment_ofParts, query_ofParts, query_ofParts, stop_spanAfterMark, stop_spanAfterMark]
    exact rebase_spanAfterMark _ _ _ p.fragment
  exact (Url.mk.injEq ..).mpr ⟨hbuffer, rfl, rfl, rfl, rfl, rfl, hquery, hfragment⟩

end Gateway.Url
