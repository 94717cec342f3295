import Gateway.Proofs.Url.Layout
/-!
# The grammar of URLs

`Parts.Divides` says, without reading, which parts a text has. Each cut that reading makes
meets its share of those rules and is the only one that does, so a text has exactly one
division and reading finds it (`ofText_eq_iff`). With the layout of the parts this gives
`parse_divides`: every text is read, and its spans show the parts of that division.
-/
namespace Gateway.Url

/-! ## The rules -/

/-- The path and all behind it. -/
def Parts.fromPath (p : Parts) : Text :=
  p.path ++ mark ['?'] p.query ++ p.query.getD [] ++ mark ['#'] p.fragment ++ p.fragment.getD []

/-- All behind the scheme and its mark. -/
def Parts.afterScheme (p : Parts) : Text :=
  p.userinfo.getD [] ++ mark ['@'] p.userinfo ++ (p.host ++ mark [':'] p.port ++ p.port.getD [] ++ p.fromPath)

theorem Parts.text_eq (p : Parts) : p.text = p.scheme.getD [] ++ mark "://".toList p.scheme ++ p.afterScheme := by
  simp [text, pieces, afterScheme, fromPath]

/-- The rules by which a text is divided. A mark that comes after its place belongs to what it stands in. -/
structure Parts.Divides (p : Parts) (s : Text) : Prop where
  /-- The parts and their marks are the text. -/
  whole : p.text = s
  scheme_iff : p.scheme.isSome ↔ "://".toList <:+: s
  scheme_free : ∀ t ∈ p.scheme, ¬ "://".toList <:+: t
  /-- There is user information if an at sign comes before the first slash. -/
  userinfo_iff : p.userinfo.isSome ↔ '@' ∈ p.afterScheme.takeWhile (· != '/')
  userinfo_free : ∀ t ∈ p.userinfo, '@' ∉ t ∧ '/' ∉ t
  host_free : ':' ∉ p.host ∧ '/' ∉ p.host
  port_free : ∀ t ∈ p.port, '/' ∉ t
  /-- The path is empty only if it ends the text. -/
  path_end : p.path = [] → p.query = none ∧ p.fragment = none
  path_slash : p.path ≠ [] → p.path.head? = some '/'
  path_free : '?' ∉ p.path ∧ '#' ∉ p.path
  query_free : ∀ t ∈ p.query, '#' ∉ t

/-! ## One cut at a time -/

section
variable {s rest : Text} {part : Option Text}

/-- The mark of a scheme does not begin in a text and end in the start of another. -/
theorem schemeMark_of_append {t : Text} (h : "://".toList <:+: t ++ "://".toList.dropLast) : "://".toList <:+: t := by
  have hsnoc : t ++ "://".toList.dropLast = (t ++ [':']) ++ ['/'] := by simp
  rw [hsnoc, List.infix_concat_iff] at h
  -- the mark ends neither in the slash nor in the colon that are put behind the text
  rcases h with ⟨front, h⟩ | h
  · exact absurd (congrArg List.reverse h) (by simp)
  · rw [List.infix_concat_iff] at h
    rcases h with ⟨front, h⟩ | h
    · exact absurd (congrArg List.reverse h) (by simp)
    · exact h

theorem splitScheme_eq_iff : splitScheme s = (part, rest) ↔
    s = part.getD [] ++ mark "://".toList part ++ rest ∧ (part.isSome ↔ "://".toList <:+: s) ∧
      ∀ t ∈ part, ¬ "://".toList <:+: t := by
  have hsep : "://".toList ≠ [] := by decide
  cases hcut : Text.cutAt? "://".toList s with
  | none =>
    have hnone := Text.cutAt?_eq_none_iff.1 hcut
    simp only [splitScheme, hcut, Prod.mk.injEq, hnone, iff_false]
    constructor
    · rintro ⟨rfl, rfl⟩
      exact ⟨rfl, by simp, by simp⟩
    · rintro ⟨rfl, hpart, -⟩
      cases part with
      | none => exact ⟨rfl, rfl⟩
      | some t => simp at hpart
  | some cut =>
    obtain ⟨front, after⟩ := cut
    obtain ⟨hs, hfree⟩ := (Text.cutAt?_eq_some_iff hsep).1 hcut
    have hinfix : "://".toList <:+: s := ⟨front, after, hs.symm⟩
    simp only [splitScheme, hcut, Prod.mk.injEq, hinfix, iff_true]
    constructor
    · rintro ⟨rfl, rfl⟩
      refine ⟨hs, rfl, fun t ht h => hfree ?_⟩
      obtain rfl := Option.some.inj ht
      exact h.trans (List.prefix_append _ _).isInfix
    · rintro ⟨hparts, hpart, hpartFree⟩
      obtain ⟨t, rfl⟩ := Option.isSome_iff_exists.1 hpart
      have hfirst := (Text.cutAt?_eq_some_iff hsep).2 ⟨hparts, fun h => hpartFree t rfl (schemeMark_of_append h)⟩
      rw [hcut] at hfirst
      simpa using hfirst

/-- An at sign comes before the first slash exactly if it ends the user information. -/
theorem at_mem_iff : '@' ∈ s.takeWhile (· != '/') ↔ (s.dropWhile isUserChar).head? = some '@' := by
  induction s with
  | nil => simp
  | cons c s ih =>
    by_cases hslash : c = '/'
    · simp [hslash, isUserChar]
    · by_cases hat : c = '@'
      · simp [hat, isUserChar]
      · simp [hslash, hat, Ne.symm hat, isUserChar, List.dropWhile_cons, ih]

theorem splitUserinfo_eq_iff : splitUserinfo s = (part, rest) ↔
    s = part.getD [] ++ mark ['@'] part ++ rest ∧ (part.isSome ↔ '@' ∈ s.takeWhile (· != '/')) ∧
      ∀ t ∈ part, '@' ∉ t ∧ '/' ∉ t := by
  rw [at_mem_iff]
  constructor
  · intro h
    obtain ⟨hs, hfree, -⟩ := Text.takeWhile_dropWhile_spec isUserChar s
    unfold splitUserinfo at h
    split at h
    · next after hdrop =>
      cases h
      rw [hdrop] at hs
      exact ⟨by simpa [mark] using hs, by simp [hdrop], fun t ht => Option.some.inj ht ▸ Text.forall_bne_bne.1 hfree⟩
    · next hdrop =>
      cases h
      refine ⟨rfl, ⟨by simp, fun hhead => ?_⟩, by simp⟩
      obtain ⟨after, hafter⟩ := List.head?_eq_some_iff.1 hhead
      exact absurd hafter (hdrop after)
  · rintro ⟨hs, hpart, hfree⟩
    cases part with
    | none =>
      unfold splitUserinfo
      split
      · next after hdrop => simp [hdrop] at hpart
      · exact congrArg (Prod.mk none) hs
    | some t =>
      obtain ⟨htake, hdrop⟩ := Text.takeWhile_dropWhile_append isUserChar ('@' :: rest)
        (Text.forall_bne_bne.2 (hfree t rfl)) (by simp [isUserChar])
      subst hs
      simp [splitUserinfo, mark, htake, hdrop]

theorem splitHost_sound {host : Text} (h : splitHost s = (host, part, rest)) :
    s = host ++ mark [':'] part ++ part.getD [] ++ rest ∧ (':' ∉ host ∧ '/' ∉ host) ∧ (∀ t ∈ part, '/' ∉ t) ∧
      ∀ c ∈ rest.head?, c = '/' := by
  obtain ⟨hs, hhost, hhead⟩ := Text.takeWhile_dropWhile_spec isHostChar s
  unfold splitHost at h
  dsimp only at h
  split at h
  · next after hdrop =>
    obtain ⟨hafter, hport, hrest⟩ := Text.takeWhile_dropWhile_spec (· != '/') after
    cases h
    rw [hdrop, hafter] at hs
    exact ⟨by simpa [mark] using hs, Text.forall_bne_bne.1 hhost,
      fun t ht => Option.some.inj ht ▸ Text.forall_bne.1 hport, by simpa only [bne_eq_false_iff_eq] using hrest⟩
  · next hdrop =>
    cases h
    refine ⟨by simp [mark], Text.forall_bne_bne.1 hhost, by simp, fun c hc => ?_⟩
    obtain ⟨after, hafter⟩ := List.head?_eq_some_iff.1 (Option.mem_def.1 hc)
    have hne : c ≠ ':' := fun e => hdrop after (e ▸ hafter)
    simpa [isHostChar, hne] using hhead c hc

theorem splitHost_append {host : Text} (hhost : ':' ∉ host ∧ '/' ∉ host) (hport : ∀ t ∈ part, '/' ∉ t)
    (hrest : ∀ c ∈ rest.head?, c = '/') :
    splitHost (host ++ mark [':'] part ++ part.getD [] ++ rest) = (host, part, rest) := by
  cases part with
  | none =>
    obtain ⟨htake, hdrop⟩ := Text.takeWhile_dropWhile_append isHostChar rest (Text.forall_bne_bne.2 hhost)
      fun c hc => by simp [isHostChar, hrest c hc]
    simp only [splitHost, mark, Option.isSome_none, Bool.false_eq_true, if_false, Option.getD_none, List.append_nil,
      htake, hdrop]
    cases rest with
    | nil => rfl
    | cons c rest =>
      obtain rfl := hrest c rfl
      rfl
  | some port =>
    obtain ⟨htake, hdrop⟩ := Text.takeWhile_dropWhile_append isHostChar (':' :: (port ++ rest))
      (Text.forall_bne_bne.2 hhost) (by simp [isHostChar])
    obtain ⟨htake', hdrop'⟩ := Text.takeWhile_dropWhile_append (· != '/') rest (Text.forall_bne.2 (hport port rfl))
      fun c hc => by simp [hrest c hc]
    simp [splitHost, mark, htake, hdrop, htake', hdrop']

theorem splitHost_eq_iff {host : Text} : splitHost s = (host, part, rest) ↔
    s = host ++ mark [':'] part ++ part.getD [] ++ rest ∧ (':' ∉ host ∧ '/' ∉ host) ∧ (∀ t ∈ part, '/' ∉ t) ∧
      ∀ c ∈ rest.head?, c = '/' := by
  refine ⟨splitHost_sound, ?_⟩
  rintro ⟨rfl, hhost, hport, hrest⟩
  exact splitHost_append hhost hport hrest

theorem splitPath_sound {path : Text} {query fragment : Option Text} (h : splitPath s = (path, query, fragment)) :
    s = path ++ mark ['?'] query ++ query.getD [] ++ mark ['#'] fragment ++ fragment.getD [] ∧
      ('?' ∉ path ∧ '#' ∉ path) ∧ ∀ t ∈ query, '#' ∉ t := by
  obtain ⟨hs, hpath, hhead⟩ := Text.takeWhile_dropWhile_spec isPathChar s
  unfold splitPath at h
  dsimp only at h
  split at h
  · next after hdrop =>
    obtain ⟨hafter, hquery, hhead⟩ := Text.takeWhile_dropWhile_spec (· != '#') after
    split at h
    · next c f hdrop' =>
      cases h
      obtain rfl : c = '#' := by simpa [hdrop'] using hhead
      rw [hdrop, hafter, hdrop'] at hs
      exact ⟨by simpa [mark] using hs, Text.forall_bne_bne.1 hpath,
        fun t ht => Option.some.inj ht ▸ Text.forall_bne.1 hquery⟩
    · next hdrop' =>
      cases h
      rw [hdrop', List.append_nil] at hafter
      rw [hdrop] at hs
      rw [← hafter] at hquery
      exact ⟨by simpa [mark] using hs, Text.forall_bne_bne.1 hpath,
        fun t ht => Option.some.inj ht ▸ Text.forall_bne.1 hquery⟩
  · next c f hne hdrop =>
    cases h
    rw [hdrop] at hs hhead
    obtain rfl : c = '#' := by
      have hc : c ≠ '?' := hne
      simpa [isPathChar, hc] using hhead
    exact ⟨by simpa [mark] using hs, Text.forall_bne_bne.1 hpath, by simp⟩
  · next hdrop =>
    cases h
    rw [hdrop] at hs
    exact ⟨by simpa [mark] using hs, Text.forall_bne_bne.1 hpath, by simp⟩

theorem splitPath_append {path : Text} {query : Option Text} (fragment : Option Text) (hpath : '?' ∉ path ∧ '#' ∉ path)
    (hquery : ∀ t ∈ query, '#' ∉ t) :
    splitPath (path ++ mark ['?'] query ++ query.getD [] ++ mark ['#'] fragment ++ fragment.getD []) =
      (path, query, fragment) := by
  obtain ⟨htake, hdrop⟩ := Text.takeWhile_dropWhile_append isPathChar
    (mark ['?'] query ++ (query.getD [] ++ (mark ['#'] fragment ++ fragment.getD []))) (Text.forall_bne_bne.2 hpath)
    (by cases query <;> cases fragment <;> simp [mark, isPathChar])
  simp only [splitPath, List.append_assoc, htake, hdrop]
  cases query with
  | none => cases fragment <;> rfl
  | some q =>
    obtain ⟨htake', hdrop'⟩ := Text.takeWhile_dropWhile_append (· != '#') (mark ['#'] fragment ++ fragment.getD [])
      (Text.forall_bne.2 (hquery q rfl)) (by cases fragment <;> simp [mark])
    simp only [mark, Option.isSome_some, if_true, Option.getD_some, List.singleton_append]
    simp only [mark] at htake' hdrop'
    rw [htake', hdrop']
    cases fragment with
    | none => exact congrArg (fun t => (path, some t, none)) (List.append_nil q)
    | some f => rfl

theorem splitPath_eq_iff {path : Text} {query fragment : Option Text} : splitPath s = (path, query, fragment) ↔
    s = path ++ mark ['?'] query ++ query.getD [] ++ mark ['#'] fragment ++ fragment.getD [] ∧
      ('?' ∉ path ∧ '#' ∉ path) ∧ ∀ t ∈ query, '#' ∉ t := by
  refine ⟨splitPath_sound, ?_⟩
  rintro ⟨rfl, hpath, hquery⟩
  exact splitPath_append fragment hpath hquery

end

/-! ## One division -/

/-- A text is divided by one cut after another, each in what the one before it left. -/
theorem ofText_eq_iff_splits {p : Parts} {s : Text} : Parts.ofText s = p ↔ ∃ behindScheme behindUserinfo behindPort,
    splitScheme s = (p.scheme, behindScheme) ∧ splitUserinfo behindScheme = (p.userinfo, behindUserinfo) ∧
    splitHost behindUserinfo = (p.host, p.port, behindPort) ∧ splitPath behindPort = (p.path, p.query, p.fragment) := by
  constructor
  · rintro rfl
    exact ⟨_, _, _, rfl, rfl, rfl, rfl⟩
  · rintro ⟨_, _, _, hscheme, huserinfo, hhost, hpath⟩
    simp only [Parts.ofText, hscheme, huserinfo, hhost, hpath]

/-- What stands behind the port is empty or begins with a slash. -/
theorem Parts.fromPath_head_iff {p : Parts} (hpath : '?' ∉ p.path ∧ '#' ∉ p.path) : (∀ c ∈ p.fromPath.head?, c = '/') ↔
    (p.path = [] → p.query = none ∧ p.fragment = none) ∧ (p.path ≠ [] → p.path.head? = some '/') := by
  obtain ⟨scheme, userinfo, host, port, path, query, fragment⟩ := p
  cases path with
  | nil => cases query <;> cases fragment <;> simp [fromPath, mark]
  | cons c path => simp [fromPath]

/-- Reading divides a text as the grammar says, and there is no other way to. -/
theorem ofText_eq_iff {p : Parts} {s : Text} : Parts.ofText s = p ↔ p.Divides s := by
  simp only [ofText_eq_iff_splits, splitScheme_eq_iff, splitUserinfo_eq_iff, splitHost_eq_iff, splitPath_eq_iff]
  constructor
  · rintro ⟨_, _, _, ⟨rfl, hscheme, hschemeFree⟩, ⟨rfl, huserinfo, huserinfoFree⟩, ⟨rfl, hhost, hport, hhead⟩, rfl,
      hpath, hquery⟩
    obtain ⟨hend, hslash⟩ := (Parts.fromPath_head_iff hpath).1 hhead
    exact ⟨p.text_eq, hscheme, hschemeFree, huserinfo, huserinfoFree, hhost, hport, hend, hslash, hpath, hquery⟩
  · intro h
    have hhead := (Parts.fromPath_head_iff h.path_free).2 ⟨h.path_end, h.path_slash⟩
    exact ⟨p.afterScheme, _, p.fromPath, ⟨h.whole.symm.trans p.text_eq, h.scheme_iff, h.scheme_free⟩,
      ⟨rfl, h.userinfo_iff, h.userinfo_free⟩, ⟨rfl, h.host_free, h.port_free, hhead⟩, rfl, h.path_free, h.query_free⟩

theorem divides_ofText (s : Text) : (Parts.ofText s).Divides s := ofText_eq_iff.1 rfl

-- the marks that come after their place stand in the parts
example : Parts.ofText "a@b?c:d@/e@f?g?h#i#".toList = ⟨none, some "a".toList, "b?c".toList, some "d@".toList,
    "/e@f".toList, some "g?h".toList, some "i#".toList⟩ := by
  decide

/-! ## What is read -/

theorem parse_eq (s : Text) : parse s = ofParts (Parts.ofText s) := by
  rw [ofParts, (divides_ofText s).whole]
  rfl

/-- The spans of `u` show the parts `p`, an absent one as empty, and leave out nothing but their marks. -/
structure Shows (u : Url) (p : Parts) : Prop where
  scheme : u.schemeText = p.scheme.getD []
  userinfo : u.userinfoText = p.userinfo.getD []
  host : u.hostText = p.host
  port : u.portText = p.port.getD []
  path : u.pathText = p.path
  query : u.queryText = p.query.getD []
  fragment : u.fragmentText = p.fragment.getD []
  bounds : u.bounds = Text.offsets 0 p.pieces

theorem shows_ofParts (p : Parts) : (ofParts p).Shows p :=
  ⟨schemeText_ofParts p, userinfoText_ofParts p, hostText_ofParts p, portText_ofParts p, pathText_ofParts p,
    queryText_ofParts p, fragmentText_ofParts p, bounds_ofParts p⟩

/-- Every text is read. Its spans show the parts of the one division of the text that the grammar allows. -/
theorem parse_divides (s : Text) : (parse s).buffer = s ∧ (parse s).InPlace ∧
    (∃ p : Parts, (∀ q : Parts, q.Divides s ↔ q = p) ∧ (parse s).Shows p) ∧
    (parse s).hostAndPort =
      if (parse s).portText = [] then (parse s).hostText else (parse s).hostText ++ ':' :: (parse s).portText := by
  rw [parse_eq]
  refine ⟨(divides_ofText s).whole, inPlace_ofParts _, ⟨Parts.ofText s, fun q => ?_, shows_ofParts _⟩, ?_⟩
  · rw [← ofText_eq_iff, eq_comm]
  · rw [hostAndPort_ofParts, portText_ofParts, hostText_ofParts]

end Gateway.Url
