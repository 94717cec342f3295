import Gateway.Proofs.Text
import Gateway.Proofs.Utf8
import Gateway.Search.Announcement
/-!
# Announcements in any layout

A device may write its headers in any order, in any letters and with blanks around them, end its
lines as it likes and write whatever else it likes between them. Each line gives a header a value
or none (`header?_eq_some_iff`), and of the lines for one header the last one counts
(`lastValue?_eq_some_iff`). A carriage return in front of the end of a line is blank, so it makes
no difference which end a line has (`says_return_iff`). So what is read is what was written
(`parse_written`).
-/
namespace Gateway

/-- The last element of a list stands at a place in it or behind that. -/
theorem cases_of_concat_eq {α : Type} {before after xs : List α} {x y : α} (h : xs ++ [x] = before ++ y :: after) :
    (after = [] ∧ xs = before ∧ x = y) ∨ ∃ rest, after = rest ++ [x] ∧ xs = before ++ y :: rest := by
  rcases after.eq_nil_or_concat with rfl | ⟨rest, z, rfl⟩
  · obtain ⟨hxs, hx⟩ := List.append_inj' h rfl
    exact .inl ⟨rfl, hxs, List.head_eq_of_cons_eq hx⟩
  · rw [List.concat_eq_append, ← List.cons_append, ← List.append_assoc] at h
    obtain ⟨hxs, hx⟩ := List.append_inj' h rfl
    cases hx
    exact .inr ⟨rest, List.concat_eq_append, hxs⟩

/-! ## Ends of lines -/

/-- How a line ends. -/
inductive LineEnd where
  | feed
  | returnFeed

/-- The characters that end a line. -/
def LineEnd.text : LineEnd → Text
  | .feed => ['\n']
  | .returnFeed => ['\r', '\n']

/-- Lines with their ends, one behind the other. -/
def written (lines : List (Text × LineEnd)) : Text := lines.flatMap fun l => l.1 ++ l.2.text

/-- What is read of a line. -/
def readLine (l : Text × LineEnd) : Text :=
  match l.2 with
  | .feed => Text.dropReturn l.1
  | .returnFeed => l.1

theorem readLine_cases (l : Text × LineEnd) : readLine l = l.1 ∨ l.1 = readLine l ++ ['\r'] := by
  obtain ⟨line, stop⟩ := l
  cases stop with
  | feed => exact Text.dropReturn_cases line
  | returnFeed => exact .inl rfl

/-- What holds of a line whether or not there is a carriage return behind it holds of what is read of it. -/
theorem readLine_iff {P : Text → Prop} (h : ∀ line, P (line ++ ['\r']) ↔ P line) (l : Text × LineEnd) :
    P (readLine l) ↔ P l.1 := by
  rcases readLine_cases l with hl | hl
  · rw [hl]
  · conv_rhs => rw [hl, h]

theorem lines_written {lines : List (Text × LineEnd)} (h : ∀ line ∈ lines.map Prod.fst, '\n' ∉ line) :
    Text.lines (written lines) = lines.map readLine := by
  induction lines with
  | nil => rfl
  | cons l lines ih =>
    obtain ⟨line, stop⟩ := l
    rw [List.map_cons, List.forall_mem_cons] at h
    rw [written, List.flatMap_cons, ← written, List.map_cons, ← ih h.2]
    cases stop with
    | feed =>
      rw [List.append_assoc]
      exact Text.lines_append h.1 _
    | returnFeed =>
      have hreturn : '\n' ∉ line ++ ['\r'] := by simp [h.1]
      have hline : line ++ LineEnd.returnFeed.text ++ written lines = (line ++ ['\r']) ++ '\n' :: written lines := by
        simp [LineEnd.text]
      rw [hline, Text.lines_append hreturn, Text.dropReturn_concat]
      rfl

namespace Announcement

/-! ## Headers -/

/-- The line gives a header, named in capitals here, this value. -/
def Says (line name value : Text) : Prop :=
  ∃ front rest, line = front ++ ':' :: rest ∧ ':' ∉ front ∧ Text.upper (Text.trim front) = name ∧ Text.trim rest = value

/-- The line gives the header some value. -/
def Names (line name : Text) : Prop := ∃ value, Says line name value

variable {line name value : Text} {lines : List Text}

theorem header?_eq_some_iff : header? line = some (name, value) ↔ Says line name value := by
  simp only [header?, Option.map_eq_some_iff, Prod.exists, Prod.mk.injEq,
    Text.cutAt?_singleton_eq_some_iff, and_assoc, Says]

theorem header?_names_iff : (header? line).map Prod.fst = some name ↔ Names line name := by
  simp only [Option.map_eq_some_iff, Prod.exists, header?_eq_some_iff]
  exact ⟨fun ⟨_, value, h, rfl⟩ => ⟨value, h⟩, fun ⟨value, h⟩ => ⟨name, value, h, rfl⟩⟩

instance : Decidable (Says line name value) := decidable_of_iff _ header?_eq_some_iff

instance : Decidable (Names line name) := decidable_of_iff _ header?_names_iff

theorem isBlank_of_return : ∀ c ∈ ['\r'], Text.isBlank c = true := List.all_eq_true.1 (by decide)

/-- A carriage return behind a line makes no difference to what the line gives. -/
theorem says_return_iff (line : Text) : Says (line ++ ['\r']) name value ↔ Says line name value := by
  constructor
  · rintro ⟨front, rest, hline, hfront, hname, hvalue⟩
    rcases cases_of_concat_eq hline with ⟨-, -, hc⟩ | ⟨rest, rfl, rfl⟩
    · -- a colon is no carriage return
      cases hc
    · rw [Text.trim_append_blank isBlank_of_return] at hvalue
      exact ⟨front, rest, rfl, hfront, hname, hvalue⟩
  · rintro ⟨front, rest, rfl, hfront, hname, hvalue⟩
    exact ⟨front, rest ++ ['\r'], by simp, hfront, hname, by rw [Text.trim_append_blank isBlank_of_return, hvalue]⟩

theorem names_return_iff (line : Text) : Names (line ++ ['\r']) name ↔ Names line name :=
  exists_congr fun _ => says_return_iff line

/-! ## The last of some lines -/

/-- Of the lines for a header, the last one has the property. -/
def LastLine (lines : List Text) (name : Text) (P : Text → Prop) : Prop :=
  ∃ before line after, lines = before ++ line :: after ∧ P line ∧ ∀ l ∈ after, ¬ Names l name

/-- The last line for a header gives it this value. -/
def LastValue (lines : List Text) (name value : Text) : Prop := LastLine lines name (Says · name value)

/-- The last of all lines decides if it is one for the header. -/
theorem lastLine_concat {P : Text → Prop} (l : Text) :
    LastLine (lines ++ [l]) name P ↔ P l ∨ ¬ Names l name ∧ LastLine lines name P := by
  constructor
  · rintro ⟨before, line, after, hlines, hP, hafter⟩
    rcases cases_of_concat_eq hlines with ⟨-, -, rfl⟩ | ⟨after, rfl, rfl⟩
    · exact .inl hP
    · rw [List.forall_mem_append] at hafter
      exact .inr ⟨hafter.2 _ List.mem_cons_self, before, line, after, rfl, hP, hafter.1⟩
  · rintro (hP | ⟨hl, before, line, after, rfl, hP, hafter⟩)
    · exact ⟨lines, l, [], rfl, hP, nofun⟩
    · refine ⟨before, line, after ++ [l], by simp, hP, ?_⟩
      rw [List.forall_mem_append]
      exact ⟨hafter, by simpa using hl⟩

/-- The last value of a header, if it has any. -/
def lastValue? (name : Text) (lines : List Text) : Option Text :=
  ((lines.filterMap header?).filter fun h => h.1 = name).getLast?.map (·.2)

theorem lastValue_eq_getD (name : Text) (lines : List Text) : lastValue name lines = (lastValue? name lines).getD [] := rfl

theorem lastValue?_eq_some_iff : lastValue? name lines = some value ↔ LastValue lines name value := by
  induction lines using List.reverseRecOn with
  | nil => simp [lastValue?, LastValue, LastLine]
  | append_singleton lines l ih =>
    rw [LastValue, lastLine_concat, ← LastValue, ← ih, lastValue?, List.filterMap_append, List.filter_append,
      ← header?_eq_some_iff, ← header?_names_iff]
    cases hl : header? l with
    | none =>
      rw [List.filterMap_cons_none hl, List.filterMap_nil, List.filter_nil, List.append_nil]
      simp [lastValue?]
    | some header =>
      obtain ⟨other, value'⟩ := header
      rw [List.filterMap_cons_some hl, List.filterMap_nil]
      by_cases hname : other = name
      · rw [List.filter_cons_of_pos (by simpa using hname), List.filter_nil, List.getLast?_concat]
        simp [hname]
      · rw [List.filter_cons_of_neg (by simpa using hname), List.filter_nil, List.append_nil]
        simp [hname, lastValue?]

theorem lastValue_eq (h : LastValue lines name value) : lastValue name lines = value := by
  rw [lastValue_eq_getD, lastValue?_eq_some_iff.2 h, Option.getD_some]

theorem lastValue_congr {lines' : List Text} (h : ∀ value, LastValue lines name value ↔ LastValue lines' name value) :
    lastValue name lines = lastValue name lines' := by
  simp only [← lastValue?_eq_some_iff] at h
  rw [lastValue_eq_getD, lastValue_eq_getD, Option.ext h]

/-! ## Layouts -/

/-- The line gives a header, whose name may be in any letters, a trimmed value, with spaces and tabs wherever
they may stand. -/
def Writes (line name value : Text) : Prop :=
  ∃ before spelled behind front back : Text, line = before ++ spelled ++ behind ++ ':' :: (front ++ value ++ back) ∧
    Text.upper spelled = name ∧ Text.trim value = value ∧ ∀ c ∈ before ++ behind ++ front ++ back, c = ' ' ∨ c = '\t'

/-- What may be a header's name or a word: it has no blanks, and no colon ends it. -/
def isToken (s : Text) : Bool := s.all fun c => !Text.isBlank c && c != ':'

theorem plain_of_isToken {s : Text} (h : isToken s = true) : ∀ c ∈ s, Text.isBlank c = false ∧ c ≠ ':' := fun c hc => by
  simpa using List.all_eq_true.1 h c hc

theorem says_of_writes (h : Writes line name value) (hname : isToken name = true) : Says line name value := by
  obtain ⟨before, spelled, behind, front, back, rfl, rfl, hvalue, hblanks⟩ := h
  have hspelled : ∀ c ∈ spelled, Text.isBlank c = false ∧ c ≠ ':' := fun c hc => by
    have hupper := plain_of_isToken hname c.toUpper (List.mem_map_of_mem hc)
    by_cases hplain : Text.isBlank c = true ∨ c = ':'
    · rwa [Text.toUpper_outside (Text.outside_letters hplain)] at hupper
    · simpa using hplain
  have hblank : ∀ c, c = ' ' ∨ c = '\t' → Text.isBlank c = true := by
    rintro c (rfl | rfl) <;> decide
  simp only [List.forall_mem_append] at hblanks
  obtain ⟨⟨⟨hbefore, hbehind⟩, hfront⟩, hback⟩ := hblanks
  refine ⟨before ++ spelled ++ behind, front ++ value ++ back, rfl, ?_, ?_, ?_⟩
  · simp only [List.mem_append, not_or]
    exact ⟨⟨fun hc => by simpa using hbefore _ hc, fun hc => (hspelled _ hc).2 rfl⟩,
      fun hc => by simpa using hbehind _ hc⟩
  · rw [Text.trim_append_blank fun c hc => hblank c (hbehind c hc),
      Text.trim_blank_append fun c hc => hblank c (hbefore c hc), Text.trim_of_nonblank fun c hc => (hspelled c hc).1]
  · rw [Text.trim_append_blank fun c hc => hblank c (hback c hc),
      Text.trim_blank_append fun c hc => hblank c (hfront c hc), hvalue]

/-- A status line that begins with HTTP, in whatever letters, and whose second word is 200. -/
def IsOk (status : Text) : Prop :=
  ∃ http version blanks rest : Text, status = http ++ version ++ (blanks ++ ("200".toList ++ rest)) ∧
    Text.sameLetters http "HTTP".toList = true ∧ (∀ c ∈ version, Text.isBlank c = false) ∧
    blanks ≠ [] ∧ (∀ c ∈ blanks, Text.isBlank c = true) ∧ ∀ c ∈ rest.head?, Text.isBlank c = true

variable {status : Text}

theorem IsOk.of_return (h : IsOk (status ++ ['\r'])) : IsOk status := by
  obtain ⟨http, version, blanks, rest, hstatus, hhttp, hversion, hne, hblanks, hrest⟩ := h
  have hdigit : status ++ ['\r'] = http ++ version ++ blanks ++ ['2', '0'] ++ '0' :: rest := by
    rw [hstatus]
    simp
  rcases cases_of_concat_eq hdigit with ⟨-, -, hc⟩ | ⟨rest, rfl, rfl⟩
  · -- no digit is a carriage return
    cases hc
  · refine ⟨http, version, blanks, rest, by simp, hhttp, hversion, hne, hblanks, fun c hc => ?_⟩
    cases rest with
    | nil => cases hc
    | cons d rest => exact hrest c hc

theorem IsOk.http (h : IsOk status) : Text.sameLetters (status.take 4) "http".toList = true := by
  obtain ⟨http, version, blanks, rest, rfl, hhttp, -⟩ := h
  have hlength : http.length = 4 := by
    have := congrArg List.length (beq_iff_eq.1 hhttp)
    simpa [Text.lower] using this
  rw [List.append_assoc, ← hlength, List.take_left]
  exact hhttp

theorem IsOk.words (h : IsOk status) : (Text.words status)[1]? = some "200".toList := by
  obtain ⟨http, version, blanks, rest, rfl, hhttp, hversion, hne, hblanks, hrest⟩ := h
  have hlower : Text.lower http = "http".toList := beq_iff_eq.1 hhttp
  have hhttp_ne : http ≠ [] := by
    rintro rfl
    cases hlower
  have hnonblank : ∀ c ∈ http, Text.isBlank c = false := fun c hc => by
    have hletter := plain_of_isToken (show isToken "http".toList = true by decide)
    have hmem : c.toLower ∈ "http".toList := hlower ▸ List.mem_map_of_mem hc
    cases hblank : Text.isBlank c with
    | false => rfl
    | true =>
      rw [Text.toLower_outside (Text.outside_letters (.inl hblank))] at hmem
      rw [← hblank, (hletter c hmem).1]
  have hhead : ∀ c ∈ (blanks ++ ("200".toList ++ rest)).head?, Text.isBlank c = true := fun c hc => by
    obtain ⟨blank, more, rfl⟩ := List.exists_cons_of_ne_nil hne
    cases hc
    exact hblanks _ List.mem_cons_self
  have hcode : ∀ c ∈ "200".toList, Text.isBlank c = false := fun c hc => (plain_of_isToken (by decide) c hc).1
  rw [Text.words_append (by simp [hhttp_ne]) (List.forall_mem_append.2 ⟨hnonblank, hversion⟩) hhead,
    Text.words_blank_append hblanks, Text.words_append (by decide) hcode hrest]
  rfl

/-- An announcement as a device may write it: a status line and behind it, among whatever else, the lines that give
what is announced, each of which is the last one for its header. -/
structure Layout (status : Text) (lines : List Text) (usn st location : Text) : Prop where
  plain : ∀ line ∈ status :: lines, '\n' ∉ line
  isOk : IsOk status
  host : (Url.parse location).hostText ≠ []
  usn : LastLine lines "USN".toList (Writes · "USN".toList usn)
  st : LastLine lines "ST".toList (Writes · "ST".toList st)
  location : LastLine lines "LOCATION".toList (Writes · "LOCATION".toList location)

theorem LastLine.lastValue_readLine {lines : List (Text × LineEnd)} (hname : isToken name = true)
    (h : LastLine (lines.map Prod.fst) name (Writes · name value)) : lastValue name (lines.map readLine) = value := by
  obtain ⟨before, line, after, hlines, hwrites, hafter⟩ := h
  obtain ⟨front, rest, rfl, rfl, hrest⟩ := List.map_eq_append_iff.1 hlines
  obtain ⟨l, back, rfl, rfl, rfl⟩ := List.map_eq_cons_iff.1 hrest
  refine lastValue_eq ⟨front.map readLine, readLine l, back.map readLine, by simp, ?_, ?_⟩
  · exact (readLine_iff (P := (Says · name value)) says_return_iff l).2 (says_of_writes hwrites hname)
  · rw [List.forall_mem_map] at hafter ⊢
    exact fun l hl => (not_congr (readLine_iff (P := (Names · name)) names_return_iff l)).2 (hafter l hl)

theorem ofText_written {status : Text × LineEnd} {lines : List (Text × LineEnd)} {usn st location : Text}
    (h : Layout status.1 (lines.map Prod.fst) usn st location) :
    ofText (written (status :: lines)) = .ok ⟨usn, uuidOfUsn usn, Url.parse location, st⟩ := by
  have hlines : Text.lines (written (status :: lines)) = readLine status :: lines.map readLine := lines_written h.plain
  have hok : IsOk (readLine status) := by
    rcases readLine_cases status with hl | hl
    · exact hl ▸ h.isOk
    · exact .of_return (hl ▸ h.isOk)
  simp only [ofText, hlines, List.headD_cons, List.tail_cons, hok.http, hok.words, h.usn.lastValue_readLine (by decide),
    h.st.lastValue_readLine (by decide), h.location.lastValue_readLine (by decide), h.host]
  rfl

/-- Of the lines of a text behind the first only the last ones for the three headers count. -/
theorem ofText_congr {s t : Text} (hfirst : (Text.lines s).headD [] = (Text.lines t).headD [])
    (hlast : ∀ name ∈ ["USN".toList, "ST".toList, "LOCATION".toList], ∀ value,
      LastValue (Text.lines s).tail name value ↔ LastValue (Text.lines t).tail name value) : ofText s = ofText t := by
  simp only [List.forall_mem_cons] at hlast
  obtain ⟨husn, hst, hlocation, -⟩ := hlast
  simp only [ofText, hfirst, lastValue_congr husn, lastValue_congr hst, lastValue_congr hlocation]

/-- An announcement is read as it was written, in whatever layout. Whether or not there is one to be read, two
datagrams that are texts are read alike if their first lines are the same and so are the last values that they give
to each of the three headers, or if neither gives one any. -/
theorem parse_written :
    (∀ (status : Text × LineEnd) (lines : List (Text × LineEnd)) (usn st location : Text),
      Layout status.1 (lines.map Prod.fst) usn st location →
      parse (Utf8.encode (written (status :: lines))) = .ok ⟨usn, uuidOfUsn usn, Url.parse location, st⟩) ∧
    ∀ (d d' : Utf8.Bytes) (s t : Text), Utf8.decode? d = some s → Utf8.decode? d' = some t →
      (Text.lines s).headD [] = (Text.lines t).headD [] →
      (∀ name ∈ ["USN".toList, "ST".toList, "LOCATION".toList], ∀ value,
        LastValue (Text.lines s).tail name value ↔ LastValue (Text.lines t).tail name value) →
      parse d = parse d' := by
  constructor
  · intro status lines usn st location h
    rw [parse, Utf8.decode?_encode]
    exact ofText_written h
  · intro d d' s t hd hd' hfirst hlast
    rw [parse, parse, hd, hd']
    exact ofText_congr hfirst hlast

/-- Lines in an odd order and an odd layout: some that say nothing, one with an older value, names in mixed letters. -/
def oddLines : List (Text × LineEnd) := [
  ("usn: uuid:old::x".toList, .feed),
  ("no header".toList, .returnFeed),
  ("\tLocation \t:  http://10.0.0.1:5000/d.xml\t".toList, .feed),
  ("St:urn:x:1".toList, .returnFeed),
  ("USN\t: uuid:a:b::urn:x:1".toList, .feed),
  ("x-usn: uuid:c".toList, .feed),
  ([], .returnFeed)]

theorem layout_odd : Layout "hTTp/1.1\t200".toList (oddLines.map Prod.fst) "uuid:a:b::urn:x:1".toList "urn:x:1".toList
    "http://10.0.0.1:5000/d.xml".toList where
  plain := by decide
  isOk := ⟨"hTTp".toList, "/1.1".toList, ['\t'], [], rfl, by decide, fun c hc => (plain_of_isToken (by decide) c hc).1,
    by decide, List.all_eq_true.1 (by decide), nofun⟩
  host := by decide
  usn := ⟨(oddLines.take 4).map Prod.fst, _, (oddLines.drop 5).map Prod.fst, rfl,
    ⟨[], "USN".toList, ['\t'], [' '], [], rfl, by decide, by decide, by simp⟩, by decide⟩
  st := ⟨(oddLines.take 3).map Prod.fst, _, (oddLines.drop 4).map Prod.fst, rfl,
    ⟨[], "St".toList, [], [], [], rfl, by decide, by decide, by simp⟩, by decide⟩
  location := ⟨(oddLines.take 2).map Prod.fst, _, (oddLines.drop 3).map Prod.fst, rfl,
    ⟨['\t'], "Location".toList, [' ', '\t'], [' ', ' '], ['\t'], rfl, by decide, by decide, by simp⟩, by decide⟩

/-- The odd lines are read, and two datagrams are refused alike that differ in what does not count. -/
theorem parse_written_odd :
    parse (Utf8.encode (written (("hTTp/1.1\t200".toList, .returnFeed) :: oddLines))) =
      .ok ⟨"uuid:a:b::urn:x:1".toList, uuidOfUsn "uuid:a:b::urn:x:1".toList, Url.parse "http://10.0.0.1:5000/d.xml".toList,
        "urn:x:1".toList⟩ ∧
    parse (Utf8.encode "HTTP/1.1 404\nUSN:b\nST:a\nst : c".toList) =
      parse (Utf8.encode "HTTP/1.1 404\r\nx\r\nST:c\r\n\r\nUsn: a\nusn: b\n".toList) := by
  refine ⟨parse_written.1 ("hTTp/1.1\t200".toList, .returnFeed) oddLines _ _ _ layout_odd,
    parse_written.2 _ _ _ _ (Utf8.decode?_encode _) (Utf8.decode?_encode _) (by decide) fun name hname value => ?_⟩
  have hvalues : ∀ name ∈ ["USN".toList, "ST".toList, "LOCATION".toList],
      lastValue? name ["USN:b".toList, "ST:a".toList, "st : c".toList] =
        lastValue? name ["x".toList, "ST:c".toList, [], "Usn: a".toList, "usn: b".toList] := by decide
  rw [← lastValue?_eq_some_iff, ← lastValue?_eq_some_iff]
  exact Eq.congr_left (hvalues name hname)

end Announcement

end Gateway
