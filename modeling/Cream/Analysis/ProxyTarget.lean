import Cream.Analysis.RequestLine

/-!
# The target of a proxied request

The server decodes the path of a request, with the decoding of HTML forms, and the proxy
pastes the decoded text into a URL. What comes out of the URL is decoded once more by
Moonraker. Moonraker gets the client's path exactly when the server has decoded it to what it
percent-decodes to, and the decoded path has nothing in it that a URL reads: no number sign or
question mark, no escape, no dot segment, no blank at the end, and only characters that may
stand in a request line or that the connection escapes. The query goes through undecoded, but
it is decoded as UTF-8, and the session hands out the query of an earlier request when the
present one has none.

The ASCII characters are counted, from the bytes of the client's path on: no stage makes them
more, and each stage that changes something loses one, so that a target which decodes to all
of them has been left alone at every stage (`pathFits_of_sent`).

SOURCE: WebService.kt:124-137, 572-590, HTTPSession.java:130-186, 306-336
-/

set_option autoImplicit false

namespace Cream.Model

open Cream.Library PercentCoding
open Cream.Library.Text (rdropWhile_append_cons)

namespace HTTPSession

variable {c : Char} {a b t : Text}

/-! ## Cutting -/

/-- What stands before the cut does not have the character. -/
theorem cut_spec (c : Char) (t : Text) : c ∉ (cut c t).1 ∧
    t = (cut c t).1 ++ ((cut c t).2.map (c :: ·)).getD [] := by
  induction t with
  | nil => exact ⟨List.not_mem_nil, rfl⟩
  | cons d t ih =>
    unfold cut
    split
    · next h => exact ⟨List.not_mem_nil, by rw [h]; rfl⟩
    · next h =>
      refine ⟨?_, congrArg (d :: ·) ih.2⟩
      rw [List.mem_cons, not_or]
      exact ⟨fun h' => h h'.symm, ih.1⟩

/-- A text without the character is passed over. -/
theorem cut_append (h : c ∉ a) : cut c (a ++ b) = (a ++ (cut c b).1, (cut c b).2) := by
  induction a with
  | nil => rfl
  | cons d a ih =>
    rw [List.mem_cons, not_or] at h
    rw [List.cons_append, cut, if_neg fun h' => h.1 h'.symm, ih h.2]
    rfl

/-- What is before the cut begins the text. -/
theorem cut_isPrefix (c : Char) (t : Text) : (cut c t).1 <+: t :=
  ⟨_, (cut_spec c t).2.symm⟩

/-- Without the character there is no cut. -/
theorem cut_of_not_mem (h : c ∉ a) : cut c a = (a, none) := by
  have := cut_append (b := []) h
  rwa [List.append_nil, show cut c [] = ([], none) from rfl, List.append_nil] at this

/-- At the character the text is cut. -/
theorem cut_cons_self : cut c (c :: t) = ([], some t) := by
  rw [cut, if_pos rfl]

/-- Before it nothing happens. -/
theorem cut_cons_ne {d : Char} (h : d ≠ c) : cut c (d :: t) = (d :: (cut c t).1, (cut c t).2) := by
  rw [cut, if_neg h]

end HTTPSession

namespace WebService

open HTTPSession Url

variable {escapes : Char → Bool} {port : Nat} {uri qs z : Text}

/-! ## Parsing the URL -/

/-- The characters `String.trim` takes away. -/
def low (c : Char) : Bool := c ≤ ' '

/-- The part of the URL in front of the path. -/
def authority (port : Nat) : Text := "http://127.0.0.1:".toList ++ (toString port).toList

/-- A port is written in digits. -/
theorem mem_port {c : Char} (h : c ∈ (toString port).toList) : c.isDigit := by
  have hrepr : (toString port).toList = Nat.toDigits 10 port := Nat.toList_repr
  rw [hrepr] at h
  exact Nat.isDigit_of_mem_toDigits (by decide) (by decide) h

/-- `URL` takes the path and the query off what stands behind the authority. -/
theorem URL_authority : URL (authority port ++ '/' :: z) =
    let kept := (cut '#' ('/' :: z.rdropWhile low)).1
    { path := removeDots (cut '?' kept).1, query := (cut '?' kept).2 } := by
  have hport : ∀ c : Char, c.isDigit = false → c ∉ (toString port).toList := fun c hc hmem => by
    rw [mem_port hmem] at hc
    cases hc
  have hauthority : ∀ c, c = '#' ∨ c = '?' → c ∉ authority port := by
    intro c hc hmem
    rcases List.mem_append.mp hmem with hmem | hmem
    · revert hmem
      rcases hc with rfl | rfl <;> decide
    · refine hport c ?_ hmem
      rcases hc with rfl | rfl <;> rfl
  have htrim : trim (authority port ++ '/' :: z) = authority port ++ '/' :: z.rdropWhile low :=
    rdropWhile_append_cons (p := low) rfl (authority port) z
  have hpath : ∀ t : Text, ((authority port ++ '/' :: t).drop "http://".length).dropWhile
      (· ≠ '/') = '/' :: t := by
    intro t
    have hhost : ∀ c ∈ "127.0.0.1:".toList ++ (toString port).toList, c ≠ '/' := by
      rintro c hc rfl
      rcases List.mem_append.mp hc with hc | hc
      · revert hc
        decide
      · exact hport '/' rfl hc
    have hdrop : (authority port ++ '/' :: t).drop "http://".length =
        ("127.0.0.1:".toList ++ (toString port).toList) ++ '/' :: t := rfl
    rw [hdrop, List.dropWhile_append_of_pos fun c hc => by simpa using hhost c hc]
    rfl
  have hcut : ∀ c, c = '#' ∨ c = '?' → ∀ t : Text, cut c (authority port ++ '/' :: t) =
      (authority port ++ '/' :: (cut c t).1, (cut c t).2) := by
    intro c hc t
    have hslash : '/' ≠ c := by
      rcases hc with rfl | rfl <;> decide
    rw [cut_append (hauthority c hc), cut_cons_ne hslash]
  have hhash : (cut '#' ('/' :: z.rdropWhile low)).1 = '/' :: (cut '#' (z.rdropWhile low)).1 := by
    rw [cut_cons_ne (by decide)]
  unfold URL
  simp only [htrim, hcut '#' (.inl rfl), hcut '?' (.inr rfl), hpath, hhash]
  rw [cut_cons_ne (by decide)]

/-! ## Targets that fit -/

/-- What `URL` keeps of a query. -/
def urlQuery (qs : Text) : Text := (cut '#' (qs.rdropWhile low)).1

/-- What the server made of a path is, in UTF-8, what the path percent-decodes to. -/
def Decoded (path : Bytes) (uri : Text) : Prop := percentDecodeBytes path = some (utf8Encode uri)

instance (path : Bytes) (uri : Text) : Decidable (Decoded path uri) :=
  inferInstanceAs (Decidable (_ = _))

/-- A URL reads nothing in the decoded path; `qs` is the query pasted behind it. -/
structure PathFits (escapes : Char → Bool) (uri qs : Text) : Prop where
  hash : '#' ∉ uri
  question : '?' ∉ uri
  escapeFree : EscapeFree uri
  dots : ¬HasDots uri
  writable : ∀ c ∈ uri, pathChar c = true ∨ escapes c = true
  last : qs = [] → uri.rdropWhile low = uri

/-- The query `qs` that is handed out can be written, and it is the one of the request: UTF-8,
with nothing in it that is cut off. Where it is another one, which was kept from an earlier
request or ends with the buffer, it has the parameters of the request. -/
def QueryFits (escapes : Char → Bool) (read target : Bytes) (qs : Text) : Prop :=
  Writable queryChar escapes (urlQuery qs) ∧
    match queryOf target with
    | none => params (urlQuery qs) = []
    | some query =>
      if read = target then utf8Encode qs = query ∧ '#' ∉ qs ∧ qs.rdropWhile low = qs
      else params (urlQuery qs) = paramsOfBytes query

/-- The request line is well formed, its path decodes to what the path of the client decodes
to, and it has the parameters of the client's query. -/
structure TargetKept (path : Bytes) (query : Option Bytes) (sent : ParsedURL) : Prop where
  pathFormed : wellFormed pathChar sent.path = true
  queryFormed : ∀ q ∈ sent.query, wellFormed queryChar q = true
  decoded : ∃ bytes, percentDecodeBytes path = some bytes ∧ percentDecode sent.path = some bytes
  sameParams : params (sent.query.getD []) = paramsOfBytes (query.getD [])

/-- A path of the API begins with a slash. -/
theorem matchesApi_cons (h : matchesApi uri = true) : ∃ u, uri = '/' :: u := by
  unfold matchesApi at h
  obtain ⟨p, hp, hbegin⟩ := List.any_eq_true.mp h
  obtain ⟨u, rfl⟩ := List.isPrefixOf_iff_prefix.mp hbegin
  have hslash : ∀ p ∈ API_PATTERN, ∃ q, p = '/' :: q := by
    intro p hp
    simp only [API_PATTERN, List.map_cons, List.map_nil, List.mem_cons, List.not_mem_nil,
      or_false] at hp
    rcases hp with rfl | rfl | rfl | rfl | rfl <;> exact ⟨_, rfl⟩
  obtain ⟨q, rfl⟩ := hslash p hp
  exact ⟨q ++ u, rfl⟩

/-- The text that is pasted behind the authority. -/
def pasted (uri qs : Text) : Text := uri ++ if qs.isEmpty then [] else '?' :: qs

/-- The slash at its beginning is not trimmed. -/
theorem rdropWhile_cons_slash (z : Text) : ('/' :: z).rdropWhile low = '/' :: z.rdropWhile low :=
  rdropWhile_append_cons (p := low) rfl [] z

variable (port) in
/-- The URL of a request, in terms of the decoded path and the query that is handed out. -/
theorem URL_urlStr {request : HttpRequest} (huri : request.uri = uri)
    (hqs : request.queryParameterString.getD [] = qs) (hapi : matchesApi uri = true) :
    URL (urlStr port request) =
      let kept := (cut '#' ((pasted uri qs).rdropWhile low)).1
      { path := removeDots (cut '?' kept).1, query := (cut '?' kept).2 } := by
  obtain ⟨u, rfl⟩ := matchesApi_cons hapi
  have hspec : urlStr port request =
      authority port ++ '/' :: (u ++ if qs.isEmpty then [] else '?' :: qs) := by
    unfold urlStr authority
    rw [huri, hqs]
    simp only [List.drop_succ_cons, List.drop_zero, List.append_assoc]
    rfl
  rw [hspec, URL_authority, pasted, List.cons_append, rdropWhile_cons_slash]

variable (port) in
/-- **A path in which a URL reads nothing** comes out of it, but for its dot segments. -/
theorem URL_of_fits {request : HttpRequest} (huri : request.uri = uri)
    (hqs : request.queryParameterString.getD [] = qs) (hapi : matchesApi uri = true)
    (hhash : '#' ∉ uri) (hquestion : '?' ∉ uri) (hlast : qs = [] → uri.rdropWhile low = uri) :
    URL (urlStr port request) =
      { path := removeDots uri, query := if qs.isEmpty then none else some (urlQuery qs) } := by
  rw [URL_urlStr port huri hqs hapi]
  unfold pasted
  cases qs with
  | nil =>
    dsimp only [List.isEmpty_nil]
    rw [if_pos rfl, List.append_nil, hlast rfl, cut_of_not_mem hhash, cut_of_not_mem hquestion]
    rfl
  | cons c qs =>
    dsimp only [List.isEmpty_cons]
    rw [if_neg (by decide), if_neg (by decide), rdropWhile_append_cons rfl, cut_append hhash,
      cut_cons_ne (by decide)]
    dsimp only
    rw [cut_append hquestion, cut_cons_self, List.append_nil]
    rfl

/-- The characters a URL cuts at, or takes away at the end. -/
def Cutting (c : Char) : Prop := c = '#' ∨ c = '?' ∨ low c = true

/-- What cuts a target is ASCII. -/
theorem Cutting.ascii {c : Char} (h : Cutting c) : asciiChar c = true := by
  rcases h with rfl | rfl | h
  · rfl
  · rfl
  · have hle : c.toNat ≤ 32 := UInt32.le_iff_toNat_le.mp (of_decide_eq_true h)
    exact decide_eq_true (by omega)

/-- What a URL keeps of a text up to the question mark, and how the rest begins. -/
theorem cut_cut_rdropWhile (t : Text) :
    ∃ rest, t = (cut '?' (cut '#' (t.rdropWhile low)).1).1 ++ rest ∧
      ∀ c ∈ rest.head?, Cutting c := by
  have htrim := (List.rdropWhile_append_rtakeWhile : t.rdropWhile low ++ t.rtakeWhile low = t)
  have hhash := (cut_spec '#' (t.rdropWhile low)).2
  set kept := (cut '#' (t.rdropWhile low)).1
  have hquestion := (cut_spec '?' kept).2
  set path := (cut '?' kept).1
  refine ⟨((cut '?' kept).2.map ('?' :: ·)).getD [] ++
    (((cut '#' (t.rdropWhile low)).2.map ('#' :: ·)).getD [] ++ t.rtakeWhile low), ?_, ?_⟩
  · rw [← List.append_assoc, ← hquestion, ← List.append_assoc, ← hhash, htrim]
  · intro c hc
    cases h1 : (cut '?' kept).2 with
    | some r =>
      rw [h1] at hc
      cases hc
      exact .inr (.inl rfl)
    | none =>
      cases h2 : (cut '#' (t.rdropWhile low)).2 with
      | some r =>
        rw [h1, h2] at hc
        cases hc
        exact .inl rfl
      | none =>
        rw [h1, h2] at hc
        exact .inr (.inr (List.mem_rtakeWhile_imp (l := t) (List.mem_of_mem_head? hc)))

/-- **The path of the URL**, before its dot segments are removed, is a beginning of the decoded
path; it has all its ASCII characters only when a URL reads nothing in it. -/
theorem kept_isPrefix (uri qs : Text) :
    let path := (cut '?' (cut '#' ((pasted uri qs).rdropWhile low)).1).1
    path.countP asciiChar ≤ uri.countP asciiChar ∧
      (path.countP asciiChar = uri.countP asciiChar →
        path = uri ∧ '#' ∉ uri ∧ '?' ∉ uri ∧ (qs = [] → uri.rdropWhile low = uri)) := by
  intro path
  set kept := (cut '#' ((pasted uri qs).rdropWhile low)).1 with hkept
  have hpath : path <+: kept := cut_isPrefix '?' kept
  have hquestion : '?' ∉ path := (cut_spec '?' kept).1
  have htrim : path <+: (pasted uri qs).rdropWhile low := hpath.trans (cut_isPrefix '#' _)
  obtain ⟨rest, hrest, hcutting⟩ := cut_cut_rdropWhile (pasted uri qs)
  have hpasted : pasted uri qs = path ++ rest := hrest
  -- the path cannot reach over the question mark
  obtain ⟨lost, huri, hlost⟩ : ∃ lost, uri = path ++ lost ∧ ∀ c ∈ lost.head?, Cutting c := by
    cases qs with
    | nil =>
      rw [pasted, List.isEmpty_nil, if_pos rfl, List.append_nil] at hpasted
      exact ⟨rest, hpasted, hcutting⟩
    | cons d qs =>
      rw [pasted, List.isEmpty_cons, if_neg (by decide)] at hpasted
      rcases List.append_eq_append_iff.mp hpasted with ⟨t, ht, hq⟩ | ⟨t, ht, hr⟩
      · cases t with
        | nil => exact ⟨[], by rw [ht, List.append_nil, List.append_nil], fun _ hc => nomatch hc⟩
        | cons e t =>
          obtain ⟨rfl, -⟩ := List.cons.inj hq
          rw [ht] at hquestion
          exact absurd (List.mem_append_right _ List.mem_cons_self) hquestion
      · refine ⟨t, ht, fun c hc => hcutting c ?_⟩
        rw [hr]
        cases t with
        | nil => cases hc
        | cons e t => exact hc
  have hcount := congrArg (List.countP asciiChar) huri
  rw [List.countP_append] at hcount
  refine ⟨by omega, fun hsame => ?_⟩
  have hnil : lost = [] := by
    cases lost with
    | nil => rfl
    | cons c t =>
      have hascii := (hlost c rfl).ascii
      rw [List.countP_cons_of_pos hascii] at hcount
      omega
  rw [hnil, List.append_nil] at huri
  refine ⟨huri.symm, fun hmem => ?_, huri ▸ hquestion, fun hqs => ?_⟩
  · exact (cut_spec '#' _).1 (hpath.subset (huri ▸ hmem))
  · rw [hqs, pasted, List.isEmpty_nil, if_pos rfl, List.append_nil, ← huri] at htrim
    exact (htrim.eq_of_length_le (List.rdropWhile_prefix _ _).length_le).symm

/-- **A query that keeps its ASCII symbols** has nothing that is cut off. -/
theorem urlQuery_of_weight {q : Text} (h : symbolsWeight asciiByte (symbols (urlQuery q)) =
    symbolsWeight asciiByte (symbols q)) : '#' ∉ q ∧ q.rdropWhile low = q := by
  obtain ⟨hmem, hcut⟩ := cut_spec '#' (q.rdropWhile low)
  set rest := (((cut '#' (q.rdropWhile low)).2.map ('#' :: ·)).getD []) with hrest
  have hq : q = urlQuery q ++ (rest ++ q.rtakeWhile low) := by
    rw [← List.append_assoc, urlQuery, ← hcut, List.rdropWhile_append_rtakeWhile]
  have hnil : rest ++ q.rtakeWhile low = [] := by
    cases htail : rest ++ q.rtakeWhile low with
    | nil => rfl
    | cons c t =>
      exfalso
      -- the first character cut off is a number sign or a blank
      have hc : c = '#' ∨ low c = true := by
        cases hcase : (cut '#' (q.rdropWhile low)).2 with
        | some r =>
          rw [hrest, hcase] at htail
          exact .inl (List.cons.inj htail).1.symm
        | none =>
          rw [hrest, hcase] at htail
          refine .inr (List.mem_rtakeWhile_imp (l := q) ?_)
          rw [show q.rtakeWhile low = c :: t from htail]
          exact List.mem_cons_self
      have hascii : asciiChar c = true := Cutting.ascii (hc.imp_right .inr)
      have hbelow : ∀ d : Char, 35 < d.toNat → c.toNat < d.toNat := by
        intro d hd
        rcases hc with rfl | hc
        · exact hd
        · have hle : c.toNat ≤ 32 := UInt32.le_iff_toNat_le.mp (of_decide_eq_true hc)
          omega
      have hne : ∀ d : Char, 35 < d.toNat → c ≠ d := by
        rintro d hd rfl
        exact lt_irrefl _ (hbelow c hd)
      have hnot : ∀ d : Char, 35 < d.toNat → ¬d ≤ c := fun d hd hle =>
        absurd (UInt32.le_iff_toNat_le.mp hle) (Nat.not_le.mpr (hbelow d hd))
      have hvalue : hexValue c = none := by
        unfold hexValue
        rw [if_neg fun h => hnot '0' (by decide) h.1, if_neg fun h => hnot 'a' (by decide) h.1,
          if_neg fun h => hnot 'A' (by decide) h.1]
      rw [htail] at hq
      have hless := ascii_symbols_lt hvalue hascii (hne '%' (by decide)) (hne '&' (by decide))
        (urlQuery q) t
      rw [← hq] at hless
      omega
  obtain ⟨hrestnil, htake⟩ := List.append_eq_nil_iff.mp hnil
  rw [hrestnil, List.append_nil] at hcut
  have hself : q.rdropWhile low = q := by
    have := (List.rdropWhile_append_rtakeWhile : q.rdropWhile low ++ q.rtakeWhile low = q)
    rwa [htake, List.append_nil] at this
  refine ⟨?_, hself⟩
  rw [hself] at hcut hmem
  rw [← hcut] at hmem
  exact hmem

/-- A query without `#` and blanks at its end is read as it is. -/
theorem urlQuery_self {q : Text} (h : '#' ∉ q ∧ q.rdropWhile low = q) : urlQuery q = q := by
  rw [urlQuery, h.2, cut_of_not_mem h.1]

variable (port) in
/-- **What is sent for a request whose path fits.** -/
theorem sent_of_fits {request : HttpRequest} (huri : request.uri = uri)
    (hqs : request.queryParameterString.getD [] = qs) (hapi : matchesApi uri = true)
    (hpath : PathFits escapes uri qs) (hquery : Writable queryChar escapes (urlQuery qs)) :
    let sent := requestTarget escapes (URL (urlStr port request))
    wellFormed pathChar sent.path = true ∧ percentDecode sent.path = some (utf8Encode uri) ∧
      (∀ q ∈ sent.query, wellFormed queryChar q = true) ∧
        params (sent.query.getD []) = params (urlQuery qs) := by
  obtain ⟨u, rfl⟩ := matchesApi_cons hapi
  have hwritable : Writable pathChar escapes ('/' :: u) := by
    rw [Writable, (octets_of_escapeFree hpath.escapeFree).2]
    exact hpath.writable
  intro sent
  have hsent : sent = requestTarget escapes
      ⟨'/' :: u, if qs.isEmpty then none else some (urlQuery qs)⟩ := by
    rw [← (removeDots_spec u).1 hpath.dots,
      ← URL_of_fits port huri hqs hapi hpath.hash hpath.question hpath.last]
  have hpercent : queryChar '%' = false := by decide
  rw [hsent]
  refine ⟨(wellFormed_wire (by decide)).mpr hwritable, ?_, fun q hq => ?_, ?_⟩
  · rw [← (octets_of_escapeFree hpath.escapeFree).1]
    exact percentDecode_wire (by decide) hwritable
  · unfold requestTarget at hq
    split at hq
    · cases hq
    · cases hq
      exact (wellFormed_wire hpercent).mpr hquery
  · unfold requestTarget
    cases qs with
    | nil => rfl
    | cons c qs =>
      show params (wire queryChar escapes (urlQuery (c :: qs))) = _
      rw [params, symbols_wire (by decide) (by decide) (by decide) hquery]
      rfl

/-- **A target that decodes to as many ASCII bytes** as the decoded path has characters was
pasted from a path that fits, and decodes to its bytes. -/
theorem pathFits_of_sent {request : HttpRequest} {bytes : Bytes} (huri : request.uri = uri)
    (hqs : request.queryParameterString.getD [] = qs) (hapi : matchesApi uri = true)
    (hformed : wellFormed pathChar
      (requestTarget escapes (URL (urlStr port request))).path = true)
    (hdecoded : percentDecode (requestTarget escapes (URL (urlStr port request))).path = some bytes)
    (hcount : uri.countP asciiChar ≤ bytes.countP asciiByte) :
    PathFits escapes uri qs ∧ bytes = utf8Encode uri := by
  obtain ⟨hbegin, hwhole⟩ := kept_isPrefix uri qs
  have hurl := URL_urlStr port huri hqs hapi
  obtain ⟨u, rfl⟩ := matchesApi_cons hapi
  set path := (cut '?' (cut '#' ((pasted ('/' :: u) qs).rdropWhile low)).1).1 with hpath
  have hslash : ∃ p, path = '/' :: p := by
    have hpasted : (pasted ('/' :: u) qs).rdropWhile low =
        '/' :: (u ++ if qs.isEmpty then [] else '?' :: qs).rdropWhile low :=
      rdropWhile_cons_slash _
    rw [hpath, hpasted, cut_cons_ne (by decide)]
    dsimp only
    rw [cut_cons_ne (by decide)]
    exact ⟨_, rfl⟩
  obtain ⟨p, hp⟩ := hslash
  have hsent : (requestTarget escapes (URL (urlStr port request))).path =
      wire pathChar escapes (removeDots path) := by
    rw [hurl]
    rfl
  rw [hsent] at hformed hdecoded
  have hwritable := (wellFormed_wire (by decide)).mp hformed
  rw [percentDecode_wire (by decide) hwritable, Option.some.injEq] at hdecoded
  subst hdecoded
  -- each stage has kept all ASCII characters
  have hoctets := (countP_octets_le (t := removeDots path)).1
  have hdots : ¬HasDots path := by
    intro h
    rw [hp] at h
    have hless := (removeDots_spec p).2 h
    rw [← hp] at hless
    omega
  have hkept : removeDots path = path := by
    rw [hp] at hdots ⊢
    exact (removeDots_spec p).1 hdots
  rw [hkept] at hwritable hoctets hcount ⊢
  have hfree : EscapeFree path := by
    by_contra h
    have hless := (countP_octets_le (t := path)).2 h
    omega
  obtain ⟨heq, hhash, hquestion, hlast⟩ := hwhole (by omega)
  rw [Writable, (octets_of_escapeFree hfree).2] at hwritable
  rw [(octets_of_escapeFree hfree).1]
  rw [heq] at hwritable hfree hdots ⊢
  exact ⟨⟨hhash, hquestion, hfree, hdots, hwritable, hlast⟩, rfl⟩

/-- **A query of its own that keeps its parameters** is UTF-8, and nothing of it is cut off. -/
theorem utf8_of_params {q : Bytes} (h : params (urlQuery (utf8Decode q)) = paramsOfBytes q) :
    utf8Encode (utf8Decode q) = q ∧ '#' ∉ utf8Decode q ∧
      (utf8Decode q).rdropWhile low = utf8Decode q := by
  have hcut : '#' ∉ utf8Decode q ∧ (utf8Decode q).rdropWhile low = utf8Decode q := by
    refine urlQuery_of_weight ?_
    rw [symbolsWeight_of_params h, ascii_symbols_utf8Decode]
  rw [urlQuery_self hcut] at h
  exact ⟨(short_symbols_utf8Decode q).2 (symbolsWeight_of_params h), hcut⟩

/-- The parameters of the request that is sent, when its line is well formed. -/
theorem sent_params {request : HttpRequest} (hqs : request.queryParameterString.getD [] = qs)
    (hapi : matchesApi request.uri = true) (hpath : PathFits escapes request.uri qs)
    (hformed : ∀ q ∈ (requestTarget escapes (URL (urlStr port request))).query,
      wellFormed queryChar q = true) :
    Writable queryChar escapes (urlQuery qs) ∧
      params ((requestTarget escapes (URL (urlStr port request))).query.getD []) =
        params (urlQuery qs) := by
  have hurl := URL_of_fits port rfl hqs hapi hpath.hash hpath.question hpath.last
  unfold requestTarget at hformed ⊢
  rw [hurl] at hformed ⊢
  have hwritable : Writable queryChar escapes (urlQuery qs) := by
    cases qs with
    | nil => exact fun c hc => (List.not_mem_nil hc).elim
    | cons c qs => exact (wellFormed_wire (by decide)).mp (hformed _ rfl)
  refine ⟨hwritable, ?_⟩
  cases qs with
  | nil => rfl
  | cons c qs =>
    show params (wire queryChar escapes (urlQuery (c :: qs))) = _
    rw [params, params, symbols_wire (by decide) (by decide) (by decide) hwritable]

/-- What the session has decoded of the request line. -/
theorem receive_spec {prev : Option Text} {inflow rest : Inflow} {request : HttpRequest}
    (h : receive prev inflow = some (request, rest)) :
    formDecode (utf8Decode (pathOf (readTarget inflow))) = some request.uri ∧
      ∀ q, queryOf (readTarget inflow) = some q →
        request.queryParameterString = some (utf8Decode q) := by
  have hdecode := decodeTarget_of_receive h
  unfold decodeTarget at hdecode
  rw [cut_utf8Decode] at hdecode
  cases hquery : queryOf (readTarget inflow) with
  | none =>
    rw [hquery] at hdecode
    obtain ⟨uri, huri, hdecode⟩ := Option.bind_eq_some_iff.mp hdecode
    have hsame := Option.some.inj hdecode
    rw [Prod.mk.injEq] at hsame
    obtain ⟨rfl, -⟩ := hsame
    exact ⟨huri, fun q hq => nomatch hq⟩
  | some q =>
    rw [hquery] at hdecode
    obtain ⟨decoded, -, hdecode⟩ := Option.bind_eq_some_iff.mp hdecode
    obtain ⟨uri, huri, hdecode⟩ := Option.bind_eq_some_iff.mp hdecode
    have hsame := Option.some.inj hdecode
    rw [Prod.mk.injEq, Prod.mk.injEq] at hsame
    obtain ⟨rfl, -, hparms⟩ := hsame
    refine ⟨huri, fun q' hq' => ?_⟩
    cases hq'
    exact hparms.symm

/-- **The ASCII characters of the decoded path** are among the bytes the client's path
percent-decodes to. -/
theorem countP_uri_le {prev : Option Text} {inflow rest : Inflow} {request : HttpRequest}
    {bytes : Bytes} (h : receive prev inflow = some (request, rest))
    (hbytes : percentDecodeBytes (pathOf (lineTarget inflow.bytes)) = some bytes) :
    request.uri.countP asciiChar ≤ bytes.countP asciiByte := by
  obtain ⟨decoded, hdecoded, hcount⟩ := percentDecode_of_formDecode (receive_spec h).1
  obtain ⟨read, hread, hsame⟩ := percentDecode_utf8Decode hdecoded
  obtain ⟨more, hmore⟩ := takeWhile_isPrefix (q := (· != 0x3F)) (readTarget_isPrefix inflow)
  have hbegin := percentDecodeBytes_append hread more
  have hall : pathOf (readTarget inflow) ++ more = pathOf (lineTarget inflow.bytes) := hmore
  rw [hall, hbytes] at hbegin
  obtain ⟨tail, -, htail⟩ := Option.map_eq_some_iff.mp hbegin.symm
  rw [← htail, List.countP_append]
  omega

/-- A connection that brings a request line and no headers. -/
def lineInflow (line : String) : Inflow where
  pieces := [utf8Encode (line ++ "\r\n\r\n").toList]
  closed := false

/-- A path with a blank and a character beyond ASCII, and a query with an escape and a plus. -/
def escapedInflow : Inflow := lineInflow "GET /server/files/a%20b%C3%A9?x=%41+1 HTTP/1.1"

/-- The request the session makes of it. -/
def escapedRequest : HttpRequest where
  method := "GET".toList
  uri := "/server/files/a b\u00e9".toList
  headers := []
  parms := [("x".toList, "A 1".toList)]
  queryParameterString := some "x=%41+1".toList

/-- A connection escapes blanks and what is beyond ASCII. -/
def usuallyEscaped (c : Char) : Bool := c = ' ' || !asciiChar c

end WebService

end Cream.Model
