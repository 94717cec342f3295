import Gateway.Proofs.Url.Target
/-!
# Endpoints in URLs

A URL that begins with the text of an endpoint says to connect to that endpoint if its address is
one of IPv4. The text of an IPv6 endpoint stands in brackets with colons between them, and as the
host of a URL ends at its first colon, such a URL does not say where to connect
(`endpoint?_parse_text`).
-/
namespace Gateway

/-! ## Texts of endpoints -/

theorem Ipv6.text_endpoint (x : Ipv6) (port : UInt16) (scope : UInt32) :
    (Endpoint.mk (.v6 x) port scope).text = '[' :: ((IpAddress.v6 x).text ++
      (if scope = 0 then [] else '%' :: Text.decimal scope.toNat) ++ ']' :: ':' :: Text.decimal port.toNat) := by
  simp only [Endpoint.text, Endpoint.pieces, IpAddress.text, IpAddress.pieces]
  split <;> simp

/-- The characters that endpoints are written with. -/
def endpointChars : Text := "[%]".toList ++ addressChars

theorem decimal_subset_endpointChars (n : Nat) : Text.decimal n ⊆ endpointChars :=
  List.subset_append_of_subset_right _ (isAddressPiece_toDigits (by decide) (by decide) n)

theorem IpAddress.text_subset_endpointChars (x : IpAddress) : x.text ⊆ endpointChars :=
  List.subset_append_of_subset_right _ fun _ => mem_addressChars_of_mem_text

theorem Ipv4.text_endpoint_subset (x : Ipv4) (port : UInt16) : (x.endpoint port).text ⊆ endpointChars := by
  rw [text_endpoint]
  refine List.append_subset.2 ⟨(IpAddress.v4 x).text_subset_endpointChars, List.cons_subset.2 ⟨by decide, ?_⟩⟩
  exact decimal_subset_endpointChars _

theorem Ipv6.text_endpoint_subset (x : Ipv6) (port : UInt16) (scope : UInt32) :
    (Endpoint.mk (.v6 x) port scope).text ⊆ endpointChars := by
  have hscope : (if scope = 0 then [] else '%' :: Text.decimal scope.toNat) ⊆ endpointChars := by
    split
    · exact List.nil_subset _
    · exact List.cons_subset.2 ⟨by decide, decimal_subset_endpointChars _⟩
  rw [text_endpoint]
  refine List.cons_subset.2 ⟨by decide, List.append_subset.2 ⟨List.append_subset.2 ⟨?_, hscope⟩, ?_⟩⟩
  · exact (IpAddress.v6 x).text_subset_endpointChars
  · exact List.cons_subset.2 ⟨by decide, List.cons_subset.2 ⟨by decide, decimal_subset_endpointChars _⟩⟩

/-- No address begins with a bracket. -/
theorem IpAddress.parse?_bracket (s : Text) : parse? ('[' :: s) = none := by
  have hgroups : readGroups 8 true ('[' :: s) = ([], false, '[' :: s) := rfl
  have hipv6 : readIpv6 ('[' :: s) = none := by
    unfold readIpv6
    rw [hgroups]
    rfl
  have hipv4 : readIpv4 ('[' :: s) = none := rfl
  rw [parse?, hipv4, hipv6]

namespace Url

variable {authority path : Text}

/-! ## Behind the scheme -/

/-- The text of an endpoint holds no user information; it is cut into a host and a port. -/
theorem ofText_http (hauthority : authority ⊆ endpointChars) (hpath : ∀ c ∈ path.head?, c = '/') :
    let p := Parts.ofText ("http://".toList ++ authority ++ path)
    p.host = (splitHost (authority ++ path)).1 ∧ p.port = (splitHost (authority ++ path)).2.1 := by
  have hscheme : splitScheme ("http://".toList ++ authority ++ path) = (some "http".toList, authority ++ path) := by
    refine splitScheme_eq_iff.2 ⟨rfl, ⟨fun _ => ⟨"http".toList, authority ++ path, rfl⟩, fun _ => rfl⟩, ?_⟩
    rintro t ⟨⟩
    decide
  have hslash : '/' ∉ authority := fun h => absurd (hauthority h) (by decide)
  have hat : '@' ∉ authority := fun h => absurd (hauthority h) (by decide)
  have huserinfo : splitUserinfo (authority ++ path) = (none, authority ++ path) := by
    have hfront : (authority ++ path).takeWhile (· != '/') = authority :=
      (Text.takeWhile_dropWhile_append (· != '/') path (Text.forall_bne.2 hslash) fun c hc => by simp [hpath c hc]).1
    refine splitUserinfo_eq_iff.2 ⟨rfl, ⟨nofun, fun h => ?_⟩, nofun⟩
    rw [hfront] at h
    exact absurd h hat
  simp only [Parts.ofText, hscheme, huserinfo, and_self]

theorem splitHost_fst (s : Text) : (splitHost s).1 = s.takeWhile isHostChar := by
  unfold splitHost
  dsimp only
  split <;> rfl

/-! ## Endpoints -/

theorem endpoint?_ipv4 (x : Ipv4) (port : UInt16) (hpath : ∀ c ∈ path.head?, c = '/') :
    (parse ("http://".toList ++ (x.endpoint port).text ++ path)).endpoint? = some (x.endpoint port) := by
  have hcut : splitHost (x.text ++ mark [':'] (some (Text.decimal port.toNat)) ++ Text.decimal port.toNat ++ path) =
      (x.text, some (Text.decimal port.toNat), path) :=
    splitHost_append ⟨notMem_ipv4 (by decide) (by decide) x, notMem_ipv4 (by decide) (by decide) x⟩
      (by simpa using notMem_decimal (c := '/') (by decide) port.toNat) hpath
  have hsplit : splitHost ((x.endpoint port).text ++ path) = (x.text, some (Text.decimal port.toNat), path) := by
    simpa [x.text_endpoint, mark] using hcut
  obtain ⟨hhost, hport⟩ := ofText_http (x.text_endpoint_subset port) hpath
  rw [hsplit] at hhost hport
  rw [parse_eq]
  generalize Parts.ofText _ = p at hhost hport
  simp [endpoint?, portNumber?, hhost, hport, IpAddress.parse?_text, Text.decimal_ne_nil,
    Text.number?_decimal port.toNat_lt, Ipv4.endpoint]

theorem endpoint?_ipv6 (x : Ipv6) (port : UInt16) (scope : UInt32) (hpath : ∀ c ∈ path.head?, c = '/') :
    (parse ("http://".toList ++ (Endpoint.mk (.v6 x) port scope).text ++ path)).endpoint? = none := by
  -- the host begins with the bracket, wherever it ends
  have hbracket : ∃ s, (splitHost ((Endpoint.mk (.v6 x) port scope).text ++ path)).1 = '[' :: s := by
    rw [x.text_endpoint, List.cons_append, splitHost_fst, List.takeWhile_cons, if_pos (by decide)]
    exact ⟨_, rfl⟩
  obtain ⟨s, hs⟩ := hbracket
  obtain ⟨hhost, -⟩ := ofText_http (x.text_endpoint_subset port scope) hpath
  rw [hs] at hhost
  rw [parse_eq, endpoint?, hostText_ofParts, hhost, IpAddress.parse?_bracket]
  rfl

/-- A URL that begins with the text of an endpoint, whatever path follows, says where to connect exactly if it is an
IPv4 endpoint, and then it says that endpoint. -/
theorem endpoint?_parse_text (path : Text) (hpath : path = [] ∨ path.head? = some '/') :
    (∀ (x : Ipv4) (port : UInt16),
      (parse ("http://".toList ++ (x.endpoint port).text ++ path)).endpoint? = some (x.endpoint port)) ∧
    ∀ (x : Ipv6) (port : UInt16) (scope : UInt32),
      (parse ("http://".toList ++ (Endpoint.mk (.v6 x) port scope).text ++ path)).endpoint? = none := by
  have hhead : ∀ c ∈ path.head?, c = '/' := by
    rintro c hc
    rcases hpath with rfl | hpath
    · cases hc
    · exact Option.some.inj (hc.symm.trans hpath)
  exact ⟨fun x port => endpoint?_ipv4 x port hhead, fun x port scope => endpoint?_ipv6 x port scope hhead⟩

-- a path in which all marks come that could divide the authority
theorem endpoint?_parse_text_marks : "/@:1://[?#".toList.head? = some '/' ∧
    (parse "http://10.0.0.1:8080/@:1://[?#".toList).endpoint? = some (Ipv4.endpoint ⟨10, 0, 0, 1⟩ 8080) ∧
    (parse "http://[fe80::1%3]:8080/@:1://[?#".toList).endpoint? = none := by
  obtain ⟨hipv4, hipv6⟩ := endpoint?_parse_text "/@:1://[?#".toList (.inr rfl)
  exact ⟨rfl, hipv4 ⟨10, 0, 0, 1⟩ 8080, hipv6 ⟨#v[0xFE80, 0, 0, 0, 0, 0, 0, 1]⟩ 8080 3⟩

/-- It is not so that a URL says to connect to any endpoint it begins with: `http://[::1]:80` does not. -/
theorem not_every_endpoint : ¬ ∀ (address : IpAddress) (port : UInt16) (path : Text),
    path = [] ∨ path.head? = some '/' →
    (parse ("http://".toList ++ (Endpoint.mk address port 0).text ++ path)).endpoint? = some { address, port } := by
  intro h
  have hlocal := h (.v6 ⟨#v[0, 0, 0, 0, 0, 0, 0, 1]⟩) 80 [] (.inl rfl)
  exact absurd hlocal (by decide)

end Url

end Gateway
