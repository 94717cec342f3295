import Gateway.Http
import Gateway.Proofs.Net.Address
import Gateway.Proofs.Url.Replacement
/-!
# What a request names

A request names its endpoint and the target of a URL, one written behind the other. Read as a
URL that is divided again where it was put together, whatever marks stand in the target: a
target begins with a slash, at which the authority ends (`parse_target`). That rests on what the
path of a URL can be, which replacing it by the path of another URL does not change
(`exists_replacePaths`).
-/
namespace Gateway.Url

variable {p : Parts} {s : Text}

/-! ## Paths and queries -/

theorem Parts.Divides.isPath (h : p.Divides s) : p.path = [] ∨ IsPath p.path := by
  by_cases hpath : p.path = []
  · exact .inl hpath
  · exact .inr ⟨h.path_slash hpath, h.path_free⟩

theorem isPath_pathText (s : Text) : (parse s).pathText = [] ∨ IsPath (parse s).pathText := by
  rw [parse_eq, pathText_ofParts]
  exact (divides_ofText s).isPath

/-- A URL that was given paths of URLs has such a path itself, or none, and the query that was read. -/
theorem exists_replacePaths (s : Text) (texts : List Text) :
    ∃ p : Parts, (parse s).replacePaths (texts.map fun t => (parse t).pathText) = ofParts p ∧
      (p.path = [] ∨ IsPath p.path) ∧ ∀ t ∈ p.query, '#' ∉ t := by
  have hread := divides_ofText s
  have hreplaced := replacePaths_ofParts (Parts.ofText s) (texts.map fun t => (parse t).pathText)
  rw [← parse_eq] at hreplaced
  refine ⟨_, hreplaced, ?_, hread.query_free⟩
  rcases List.eq_nil_or_concat texts with rfl | ⟨front, t, rfl⟩
  · exact hread.isPath
  · simp only [Parts.withPath, List.concat_eq_append, List.map_append, List.map_cons, List.map_nil,
      List.getLastD_concat]
    exact isPath_pathText t

/-- Up to the fragment there is no hash. -/
theorem Parts.Divides.notMem_fromPath (h : p.Divides s) (hfragment : p.fragment = none) : '#' ∉ p.fromPath := by
  have hquery : '#' ∉ p.query.getD [] := by
    cases hq : p.query with
    | none => simp
    | some t => exact h.query_free t hq
  have hmark : '#' ∉ mark ['?'] p.query := by
    unfold mark
    split <;> decide
  simp [fromPath, mark, hfragment, h.path_free.2, hquery, show '#' ∉ if p.query.isSome then ['?'] else [] from hmark]

/-! ## The parts of what is requested -/

/-- The parts of a request for the target of `p` at a host and port. -/
def Parts.requested (p : Parts) (host port : Text) : Parts where
  scheme := some "http".toList
  userinfo := none
  host := host
  port := some port
  path := if p.path = [] then ['/'] else p.path
  query := dropEmpty p.query
  fragment := none

variable {host port : Text}

theorem requestTarget_ofParts (p : Parts) (host port : Text) :
    (ofParts p).requestTarget = (p.requested host port).fromPath := by
  simp only [requestTarget, isEmpty_path, isEmpty_query, pathText_ofParts, queryText_ofParts, Parts.fromPath,
    Parts.requested, getD_dropEmpty, mark_dropEmpty]
  split <;> simp [mark, *]

variable (host port) in
theorem isPath_requested (hpath : p.path = [] ∨ IsPath p.path) : IsPath (p.requested host port).path := by
  rcases hpath with hpath | hpath
  · simp only [Parts.requested, hpath, if_true]
    decide
  · simpa only [Parts.requested, if_neg hpath.ne_nil] using hpath

/-- Nothing is dropped from what was requested. -/
theorem requested_requested (hpath : p.path = [] ∨ IsPath p.path) :
    (p.requested host port).requested host port = p.requested host port := by
  have hfull : (p.requested host port).path ≠ [] := (isPath_requested host port hpath).ne_nil
  have hquery : dropEmpty (dropEmpty p.query) = dropEmpty p.query := by
    by_cases h : p.query = some [] <;> simp [dropEmpty, h]
  exact (Parts.mk.injEq ..).mpr ⟨rfl, rfl, rfl, rfl, if_neg hfull, hquery, rfl⟩

theorem text_requested (p : Parts) (host port : Text) :
    (p.requested host port).text = "http://".toList ++ (host ++ ':' :: port) ++ (p.requested host port).fromPath := by
  rw [Parts.text_eq]
  simp [Parts.afterScheme, Parts.requested, mark]

/-- The target of a URL stands behind an authority as it is: it begins with a slash. -/
theorem divides_requested (hpath : p.path = [] ∨ IsPath p.path) (hquery : ∀ t ∈ p.query, '#' ∉ t)
    (hhost : ':' ∉ host ∧ '/' ∉ host ∧ '@' ∉ host) (hport : '/' ∉ port ∧ '@' ∉ port) :
    (p.requested host port).Divides (p.requested host port).text where
  whole := rfl
  scheme_iff := by
    refine ⟨fun _ => ⟨"http".toList, (p.requested host port).afterScheme, ?_⟩, fun _ => rfl⟩
    simp [Parts.text_eq, Parts.requested, mark]
  scheme_free := by
    rintro t ⟨⟩
    decide
  userinfo_iff := by
    have hfree : '/' ∉ (p.requested host port).authority ∧ '@' ∉ (p.requested host port).authority := by
      simp [Parts.authority, Parts.requested, mark, hhost, hport]
    have hrequested := isPath_requested host port hpath
    have hhead : ∀ c ∈ (p.requested host port).fromPath.head?, c = '/' :=
      (Parts.fromPath_head_iff hrequested.2).2 ⟨fun he => absurd he hrequested.ne_nil, fun _ => hrequested.1⟩
    rw [Parts.takeWhile_afterScheme hfree.1 hhead]
    refine ⟨fun h => ?_, fun hat => absurd hat hfree.2⟩
    cases h
  userinfo_free := by
    rintro t ⟨⟩
  host_free := ⟨hhost.1, hhost.2.1⟩
  port_free := by
    rintro t ⟨⟩
    exact hport.1
  path_end := fun he => absurd he (isPath_requested host port hpath).ne_nil
  path_slash := fun _ => (isPath_requested host port hpath).1
  path_free := (isPath_requested host port hpath).2
  query_free := by
    intro t ht
    have hshown : dropEmpty p.query = some t := ht
    unfold dropEmpty at hshown
    split at hshown
    · cases hshown
    · exact hquery t hshown

/-! ## Reading the request -/

theorem notMem_decimal {c : Char} (hc : c.isDigit = false) (n : Nat) : c ∉ Text.decimal n := fun h => by
  rw [Text.isDigit_of_mem_decimal h] at hc
  cases hc

theorem notMem_ipv4 {c : Char} (hc : c.isDigit = false) (hpoint : c ≠ '.') (x : Ipv4) : c ∉ x.text := fun h => by
  rcases Ipv4.isDigit_or_of_mem_text h with hdigit | rfl
  · rw [hdigit] at hc
    cases hc
  · exact hpoint rfl

theorem target_ofParts (p : Parts) (x : Ipv4) (port : UInt16) :
    Http.target (x.endpoint port) (ofParts p) = (p.requested x.text (Text.decimal port.toNat)).text := by
  have htarget : Http.target (x.endpoint port) (ofParts p) =
      "http://".toList ++ (x.endpoint port).text ++ (ofParts p).requestTarget := rfl
  rw [htarget, Ipv4.text_endpoint, requestTarget_ofParts p x.text (Text.decimal port.toNat), text_requested]

theorem endpoint?_requested (p : Parts) (x : Ipv4) (port : UInt16) :
    (ofParts (p.requested x.text (Text.decimal port.toNat))).endpoint? = some (x.endpoint port) := by
  have hfull : ¬ (ofParts (p.requested x.text (Text.decimal port.toNat))).port.isEmpty = true := by
    rw [isEmpty_port]
    exact Text.decimal_ne_nil _
  have hport : (ofParts (p.requested x.text (Text.decimal port.toNat))).portNumber? = some port := by
    rw [portNumber?, portText_ofParts]
    simp [Parts.requested, Text.number?_decimal port.toNat_lt]
  have hhost : (ofParts (p.requested x.text (Text.decimal port.toNat))).hostText = x.text := hostText_ofParts _
  simp only [endpoint?, hhost, IpAddress.parse?_text, hport, if_neg hfull]
  rfl

/-- What a request names is at the endpoint it is sent to, with the target of the URL it is for and nothing else,
whatever paths of URLs that URL was given. -/
theorem parse_target (s : Text) (texts : List Text) (x : Ipv4) (port : UInt16) :
    let u := (parse s).replacePaths (texts.map fun t => (parse t).pathText)
    let named := parse (Http.target (x.endpoint port) u)
    u.requestTarget.head? = some '/' ∧ '#' ∉ u.requestTarget ∧ named.endpoint? = some (x.endpoint port) ∧
      named.userinfoText = [] ∧ named.fragmentText = [] ∧ named.requestTarget = u.requestTarget := by
  intro u named
  obtain ⟨p, hu, hpath, hquery⟩ : ∃ p, u = ofParts p ∧ _ := exists_replacePaths s texts
  have hdivides := divides_requested hpath hquery
    ⟨notMem_ipv4 (by decide) (by decide) x, notMem_ipv4 (by decide) (by decide) x, notMem_ipv4 (by decide) (by decide) x⟩
    ⟨notMem_decimal (by decide) port.toNat, notMem_decimal (by decide) port.toNat⟩
  have hnamed : named = ofParts (p.requested x.text (Text.decimal port.toNat)) := by
    show parse (Http.target (x.endpoint port) u) = _
    rw [hu, target_ofParts, parse_eq, ofText_eq_iff.2 hdivides]
  have htarget : u.requestTarget = (p.requested x.text (Text.decimal port.toNat)).fromPath := by
    rw [hu, requestTarget_ofParts p x.text (Text.decimal port.toNat)]
  rw [htarget, hnamed]
  refine ⟨?_, hdivides.notMem_fromPath rfl, endpoint?_requested p x port, ?_, ?_, ?_⟩
  · simp [Parts.fromPath, List.head?_append, hdivides.path_slash (isPath_requested _ _ hpath).ne_nil]
  · rw [userinfoText_ofParts]
    rfl
  · rw [fragmentText_ofParts]
    rfl
  · rw [requestTarget_ofParts _ x.text (Text.decimal port.toNat), requested_requested hpath]

end Gateway.Url
