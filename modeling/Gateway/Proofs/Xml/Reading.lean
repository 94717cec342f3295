import Gateway.Xml.Document
import Gateway.Xml.Markup
/-!
# Reading what has been written, piece by piece

A reader goes through a text one character at a time. Here is where each piece that is
written takes it: escaped text adds to the text since the last markup (`reads_escape`), an
attribute to the start tag (`reads_attributes`), and a name is gathered backwards until
something stands behind it.
-/
namespace Gateway.Xml

/-! ## Characters -/

variable {c : Char}

theorem isNameChar_of_isNameStart (h : isNameStart c = true) : isNameChar c = true := by
  simp [isNameChar, h]

/-- What ends a name is no part of it. -/
theorem ne_of_isNameChar {d : Char} (h : isNameChar c = true) (hd : isNameChar d = false) : c ≠ d := by
  rintro rfl
  exact absurd h (by rw [hd]; decide)

theorem ne_mark_of_isNameChar (h : isNameChar c = true) : c ≠ '>' ∧ c ≠ '/' ∧ c ≠ '?' ∧ c ≠ '!' ∧ c ≠ ';' := by
  refine ⟨?_, ?_, ?_, ?_, ?_⟩
  all_goals exact ne_of_isNameChar h (by decide)

theorem isSpace_of_isNameChar (h : isNameChar c = true) : isSpace c = false := by
  have hspace : c ≠ ' ' ∧ c ≠ '\t' ∧ c ≠ '\n' ∧ c ≠ '\r' :=
    ⟨ne_of_isNameChar h (by decide), ne_of_isNameChar h (by decide), ne_of_isNameChar h (by decide),
      ne_of_isNameChar h (by decide)⟩
  simp [isSpace, hspace]

/-- The characters of a name, of which the first is more restricted. -/
def isName : Text → Bool
  | [] => false
  | c :: s => isNameStart c && s.all isNameChar

theorem isName_cons {s : Text} (h : isName (c :: s) = true) :
    isNameStart c = true ∧ ∀ d ∈ s, isNameChar d = true := by
  simpa [isName] using h

/-- A start tag with one more attribute, which it must not have yet. -/
def Opening.with? (o : Opening) (a : Text × Text) : Option Opening := do
  let name ← QName.ofText? a.1
  if o.attributes.any fun b => b.1 = name then none else o.add? name a.2

/-! ## Pieces -/

namespace Reader

variable {r r' r'' : Reader} {s t : Text}

/-- Reading `s` takes `r` to `r'`. -/
def Reads (r : Reader) (s : Text) (r' : Reader) : Prop := r.feedAll s = some r'

theorem reads_nil (r : Reader) : r.Reads [] r := rfl

theorem Reads.feedAll (h : r.Reads s r') (t : Text) : r.feedAll (s ++ t) = r'.feedAll t := by
  rw [Reader.feedAll, List.foldlM_append]
  change (r.feedAll s).bind _ = _
  rw [h]
  rfl

theorem Reads.append (h : r.Reads s r') (h' : r'.Reads t r'') : r.Reads (s ++ t) r'' := (h.feedAll t).trans h'

/-- It reads XML 1.0, and takes each character of the document for itself. -/
structure IsPlain (r : Reader) : Prop where
  edition : r.edition = .xml10
  encoding : ∀ c, decoded r.encoding c = some [c]

theorem IsPlain.mode (hr : r.IsPlain) (mode : Mode) : { r with mode := mode }.IsPlain := ⟨hr.edition, hr.encoding⟩

theorem read_of_step (h : r.step c = some (r', [])) (n : Nat) : r.read n [c] = some r' := by
  cases n <;> simp [read, readWith, h]

theorem IsPlain.feed (hr : r.IsPlain) (h : r.step c = some (r', [])) : r.feed c = some r' := by
  simp [Reader.feed, hr.encoding, read_of_step h]

theorem IsPlain.reads (hr : r.IsPlain) (h : r.step c = some (r', [])) (h' : r'.Reads s r'') : r.Reads (c :: s) r'' := by
  rw [Reads, Reader.feedAll, List.foldlM_cons, hr.feed h]
  exact h'

/-- A reader that steps alike reads alike. -/
theorem IsPlain.feedAll_cons (hr : r.IsPlain) (hr' : r'.IsPlain) (h : r.step c = r'.step c) (s : Text) :
    r.feedAll (c :: s) = r'.feedAll (c :: s) := by
  have hfeed : r.feed c = r'.feed c := by
    simp [Reader.feed, hr.encoding, hr'.encoding, read, maxInsertions, readWith, h]
  rw [Reader.feedAll, Reader.feedAll, List.foldlM_cons, List.foldlM_cons, hfeed]

/-- What a mode gathers backwards once it has begun, while nothing else can happen. -/
theorem IsPlain.reads_gathering (hr : r.IsPlain) (mode : Text → Mode)
    (h : ∀ gathered ≠ [], ∀ c ∈ s, { r with mode := mode gathered }.step c =
      some ({ r with mode := mode (c :: gathered) }, [])) {gathered : Text} (hg : gathered ≠ []) :
    { r with mode := mode gathered }.Reads s { r with mode := mode (s.reverse ++ gathered) } := by
  induction s generalizing gathered with
  | nil => exact reads_nil _
  | cons c s ih =>
    refine (hr.mode _).reads (h gathered hg c List.mem_cons_self) ?_
    rw [List.reverse_cons, List.append_assoc]
    exact ih (fun gathered hg d hd => h gathered hg d (List.mem_cons_of_mem _ hd)) (List.cons_ne_nil c gathered)

/-! ## References -/

/-- A reference stands for one character wherever it is read. -/
structure Refers (name : Text) (x : Char) : Prop where
  start : ∃ c s, name = c :: s ∧ (isNameStart c = true ∨ c = '#') ∧ ∀ d ∈ s, isNameChar d = true
  ends : ∀ (r : Reader) (back : Mode), r.edition = .xml10 → r.endReference name back = some (r.addChar back x, [])

theorem addChar_mode (r : Reader) (mode back : Mode) (x : Char) :
    { r with mode := mode }.addChar back x = r.addChar back x := by
  cases back <;> rfl

theorem IsPlain.reads_reference (hr : r.IsPlain) {name : Text} {x : Char} (h : Refers name x) (back : Mode) :
    { r with mode := .reference [] back }.Reads (name ++ [';']) (r.addChar back x) := by
  obtain ⟨c, s, rfl, hc, hs⟩ := h.start
  have hne : c ≠ ';' := by
    rintro rfl
    exact absurd hc (by decide)
  have hbegin : { r with mode := .reference [] back }.step c = some ({ r with mode := .reference [c] back }, []) := by
    rcases hc with hc | rfl
    · simp [step, stepReference, hne, hc]
    · rfl
  have hgather : { r with mode := .reference [c] back }.Reads s
      { r with mode := .reference (s.reverse ++ [c]) back } := by
    refine hr.reads_gathering (.reference · back) (fun gathered hg d hd => ?_) (List.cons_ne_nil c [])
    have hd := hs d hd
    simp [step, stepReference, hd, hg, ne_mark_of_isNameChar hd]
  refine (hr.mode _).reads hbegin (hgather.append ?_)
  refine (hr.mode _).reads ?_ (reads_nil _)
  have hends := h.ends { r with mode := .reference (s.reverse ++ [c]) back } back hr.edition
  rw [addChar_mode] at hends
  simpa [step, stepReference] using hends

theorem refers_named {name : Text} {x : Char} (hname : isName name = true) (hx : namedChar? name = some x) :
    Refers name x := by
  cases name with
  | nil => cases hname
  | cons c s =>
    obtain ⟨hc, hs⟩ := isName_cons hname
    refine ⟨⟨c, s, rfl, .inl hc, hs⟩, fun r back _ => ?_⟩
    have hne : c ≠ '#' := by
      rintro rfl
      exact absurd hc (by decide)
    unfold endReference
    split
    · next h => cases h
    · next h => exact absurd (List.cons.inj h).1 hne
    · rw [hx]

theorem refers_code {code : Text} {x : Char} (hcode : ∀ d ∈ code, isNameChar d = true)
    (hx : charReference? .xml10 code = some x) : Refers ('#' :: code) x := by
  refine ⟨⟨'#', code, rfl, .inr rfl, hcode⟩, fun r back he => ?_⟩
  rw [endReference, he, hx]
  rfl

/-! ## Escaped text -/

theorem escapeChar_cases (c : Char) :
    (∃ name, Markup.escapeChar c = '&' :: name ++ [';'] ∧ Refers name c) ∨
      (Markup.escapeChar c = [c] ∧ c ≠ '<' ∧ c ≠ '>' ∧ c ≠ '&') := by
  unfold Markup.escapeChar
  split
  · exact .inl ⟨"lt".toList, rfl, refers_named (by decide) (by decide)⟩
  · exact .inl ⟨"gt".toList, rfl, refers_named (by decide) (by decide)⟩
  · exact .inl ⟨"amp".toList, rfl, refers_named (by decide) (by decide)⟩
  · next h₁ h₂ h₃ => exact .inr ⟨rfl, h₁, h₂, h₃⟩

theorem escapeValueChar_cases (c : Char) :
    (∃ name, Markup.escapeValueChar c = '&' :: name ++ [';'] ∧ Refers name c) ∨
      (Markup.escapeValueChar c = [c] ∧ c ≠ '"' ∧ c ≠ '<' ∧ c ≠ '&') := by
  unfold Markup.escapeValueChar
  split
  · exact .inl ⟨"quot".toList, rfl, refers_named (by decide) (by decide)⟩
  · exact .inl ⟨"apos".toList, rfl, refers_named (by decide) (by decide)⟩
  · exact .inl ⟨"#xA".toList, rfl, refers_code (List.all_eq_true.1 (by decide)) (by decide)⟩
  · exact .inl ⟨"#xD".toList, rfl, refers_code (List.all_eq_true.1 (by decide)) (by decide)⟩
  · next hq _ _ _ =>
    rcases escapeChar_cases c with h | ⟨h, hlt, -, hamp⟩
    · exact .inl h
    · exact .inr ⟨h, hq, hlt, hamp⟩

/-- The reader in text, after `s` since the last markup. -/
def inText (r : Reader) (s : Text) (brackets : Nat) : Reader :=
  { r with mode := .content brackets, run := s.reverse, blank := s.all isSpace }

theorem inText_concat (r : Reader) (s : Text) (c : Char) (brackets : Nat) : r.inText (s ++ [c]) brackets =
    { r with mode := .content brackets, run := c :: s.reverse, blank := s.all isSpace && isSpace c } := by
  simp [inText]

theorem IsPlain.reads_escapeChar (hr : r.IsPlain) (hframes : r.frames.isEmpty = false)
    (hc : isAllowed .xml10 c = true) (s : Text) (brackets : Nat) :
    ∃ brackets', (r.inText s brackets).Reads (Markup.escapeChar c) (r.inText (s ++ [c]) brackets') := by
  have hplain : (r.inText s brackets).IsPlain := ⟨hr.edition, hr.encoding⟩
  rcases escapeChar_cases c with ⟨name, he, hname⟩ | ⟨he, hlt, hgt, hamp⟩
  · rw [he]
    have hbegin : (r.inText s brackets).step '&' =
        some ({ r.inText s brackets with mode := .reference [] (.content 0) }, []) := by
      simp [step, stepContent, inText, hframes]
    refine ⟨0, hplain.reads hbegin ?_⟩
    rw [inText_concat]
    exact hplain.reads_reference hname (.content 0)
  · rw [he]
    refine ⟨if c = ']' then min 2 (brackets + 1) else 0, hplain.reads ?_ (reads_nil _)⟩
    rw [inText_concat]
    simp [step, stepContent, inText, hframes, hlt, hgt, hamp, hr.edition, isPlain, hc]

theorem IsPlain.reads_escape (hr : r.IsPlain) (hframes : r.frames.isEmpty = false)
    (ht : ∀ c ∈ t, isAllowed .xml10 c = true) (s : Text) (brackets : Nat) :
    ∃ brackets', (r.inText s brackets).Reads (Markup.escape t) (r.inText (s ++ t) brackets') := by
  induction t generalizing s brackets with
  | nil => exact ⟨brackets, by rw [List.append_nil]; exact reads_nil _⟩
  | cons c t ih =>
    obtain ⟨b, hc⟩ := hr.reads_escapeChar hframes (ht c List.mem_cons_self) s brackets
    obtain ⟨b', hrest⟩ := ih (fun d hd => ht d (List.mem_cons_of_mem _ hd)) (s ++ [c]) b
    rw [List.append_assoc] at hrest
    exact ⟨b', hc.append hrest⟩

/-! ## Values -/

theorem IsPlain.reads_escapeValueChar (hr : r.IsPlain) (hc : isAllowed .xml10 c = true) (h : Holder) (s : Text) :
    { r with mode := .value h '"' s }.Reads (Markup.escapeValueChar c) { r with mode := .value h '"' (c :: s) } := by
  rcases escapeValueChar_cases c with ⟨name, he, hname⟩ | ⟨he, hquote, hlt, hamp⟩
  · rw [he]
    exact (hr.mode _).reads rfl (hr.reads_reference hname (.value h '"' s))
  · rw [he]
    refine (hr.mode _).reads ?_ (reads_nil _)
    simp [step, stepValue, hquote, hlt, hamp, hr.edition, isPlain, hc]

theorem IsPlain.reads_value (hr : r.IsPlain) (ht : ∀ c ∈ t, isAllowed .xml10 c = true) (h : Holder) (s : Text) :
    { r with mode := .value h '"' s }.Reads (t.flatMap Markup.escapeValueChar)
      { r with mode := .value h '"' (t.reverse ++ s) } := by
  induction t generalizing s with
  | nil => exact reads_nil _
  | cons c t ih =>
    rw [List.reverse_cons, List.append_assoc]
    exact (hr.reads_escapeValueChar (ht c List.mem_cons_self) h s).append
      (ih (fun d hd => ht d (List.mem_cons_of_mem _ hd)) (c :: s))

/-! ## Attributes -/

/-- An attribute whose name and value can be written. -/
def IsWritable (a : Text × Text) : Prop := isName a.1 = true ∧ ∀ c ∈ a.2, isAllowed .xml10 c = true

variable {o o' : Opening} {a : Text × Text} {attributes : List (Text × Text)}

theorem IsPlain.reads_attribute (hr : r.IsPlain) (ha : IsWritable a) (h : o.with? a = some o') :
    { r with mode := .tag o false }.Reads (Markup.attributeText a) { r with mode := .tag o' false } := by
  obtain ⟨name, value⟩ := a
  obtain ⟨hname, hvalue⟩ := ha
  obtain ⟨q, hq, h⟩ := Option.bind_eq_some_iff.1 h
  obtain ⟨hnew, hadd⟩ := Option.ite_none_left_eq_some.1 h
  cases name with
  | nil => cases hname
  | cons c s =>
    obtain ⟨hc, hs⟩ := isName_cons hname
    have hbegin : { r with mode := .tag o true }.step c = some ({ r with mode := .attribute o [c] }, []) := by
      have hc' := isNameChar_of_isNameStart hc
      simp [step, stepTag, hc, isSpace_of_isNameChar hc', ne_mark_of_isNameChar hc']
    have hgather : { r with mode := .attribute o [c] }.Reads s
        { r with mode := .attribute o (s.reverse ++ [c]) } :=
      hr.reads_gathering (.attribute o) (fun gathered _ d hd => by simp [step, stepAttribute, hs d hd])
        (List.cons_ne_nil c [])
    have hequals : { r with mode := .attribute o (s.reverse ++ [c]) }.step '=' =
        some ({ r with mode := .quote (.attribute o q) }, []) := by
      simp [step, stepAttribute, endAttributeName, hq, hnew, show isNameChar '=' = false by decide]
    have hend : { r with mode := .value (.attribute o q) '"' value.reverse }.step '"' =
        some ({ r with mode := .tag o' false }, []) := by
      simp [step, stepValue, endValue, hadd]
    have hquoted : { r with mode := .quote (.attribute o q) }.Reads
        ('"' :: value.flatMap Markup.escapeValueChar ++ ['"']) { r with mode := .tag o' false } := by
      refine (hr.mode _).reads rfl ((hr.reads_value hvalue _ []).append ?_)
      rw [List.append_nil]
      exact (hr.mode _).reads hend (reads_nil _)
    rw [Markup.attributeText, List.append_assoc, List.append_assoc]
    exact (hr.mode _).reads rfl ((hr.mode _).reads hbegin (hgather.append ((hr.mode _).reads hequals hquoted)))

theorem IsPlain.reads_attributes (hr : r.IsPlain) (ha : ∀ a ∈ attributes, IsWritable a)
    (h : attributes.foldlM Opening.with? o = some o') :
    { r with mode := .tag o false }.Reads (attributes.flatMap Markup.attributeText)
      { r with mode := .tag o' false } := by
  induction attributes generalizing o with
  | nil =>
    cases h
    exact reads_nil _
  | cons a attributes ih =>
    rw [List.foldlM_cons] at h
    obtain ⟨o₁, h₁, h⟩ := Option.bind_eq_some_iff.1 h
    exact (hr.reads_attribute (ha a List.mem_cons_self) h₁).append
      (ih (fun b hb => ha b (List.mem_cons_of_mem _ hb)) h)

end Reader

end Gateway.Xml
