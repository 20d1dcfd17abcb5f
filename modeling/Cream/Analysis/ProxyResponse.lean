import Cream.Model.Response
import Mathlib.Data.List.Perm.Basic

/-!
# The relay of a response

What a client reads of the bytes that `serve` and `Response.send` write for a response of
Moonraker. The header lines that are sent are, up to their order, one line for each name (the
last value) and the lines the relay adds (`added`): the content type a second time, a date,
the status line under the name `null`, and the gzip coding. What it loses are all other values
(`lost`). So the headers are kept exactly if the lines lost are the lines added; a
`HttpURLConnection` always presents the status line, and nothing makes up for it but a
repeated header of the name `null`.

The framing is chosen without regard to the headers that are relayed: it is consistent only
if these have no framing of their own (`Framed`).
-/

set_option autoImplicit false

namespace Cream.Model

open Cream.Library HttpMessage

/-! ## What a client is to read -/

/-- The headers about the connection and the framing, which are not end to end. -/
def perConnection : List Bytes :=
  ["connection", "keep-alive", "proxy-connection", "te", "trailer", "transfer-encoding",
    "upgrade", "content-length"].map ascii

/-- The end-to-end headers, with their names in lower case. -/
def endToEnd (fields : List (Bytes × Bytes)) : List (Bytes × Bytes) :=
  (fields.map fun f => (lowered f.1, f.2)).filter fun f => f.1 ∉ perConnection

/-- A client reads the response of Moonraker in the bytes. -/
def Relayed (con : HttpURLConnection) (bytes : Bytes) : Prop :=
  ∃ m, parse con.head bytes = some m ∧ m.code = con.responseCode ∧
    (endToEnd m.fields).Perm (endToEnd con.fields) ∧ m.body = con.body

namespace HttpURLConnection

/-- The last value. -/
def last (values : List Bytes) : Bytes := values.getLast?.getD []

/-- The last value of each name. -/
def kept (con : HttpURLConnection) : List (Bytes × Bytes) :=
  con.headerFields.flatMap fun f => (f.1.map fun name => (name, last f.2)).toList

/-- The other values. -/
def lost (con : HttpURLConnection) : List (Bytes × Bytes) :=
  con.headerFields.flatMap fun f => (f.1.map fun name => f.2.dropLast.map fun v => (name, v)).getD []

/-- What is presented under the key `null`. -/
def unnamed (con : HttpURLConnection) : List Bytes :=
  con.headerFields.flatMap fun f => if f.1 = none then [last f.2] else []

/-- The response is compressed. -/
def gzipped (con : HttpURLConnection) (acceptsGzip : Bool) : Bool :=
  acceptsGzip && (named (ascii "content-length") con.kept).isEmpty &&
    con.contentType.any fun m => Response.contains (lowered m) (ascii "text/") ||
      Response.contains (lowered m) (ascii "/json")

/-- The lines the relay adds to the end-to-end headers. -/
def added (rt : Runtime) (con : HttpURLConnection) (gzip : Bool) : List (Bytes × Bytes) :=
  (con.contentType.map fun m => (ascii "content-type", m)).toList ++
    (if (named (ascii "date") con.kept).isEmpty then [(ascii "date", rt.now)] else []) ++
    con.unnamed.map (fun v => (ascii "null", v)) ++
    (if gzip then [(ascii "content-encoding", ascii "gzip")] else [])

/-- The framing of the response and the one the relay chooses agree. -/
def Framed (rt : Runtime) (con : HttpURLConnection) (gzip : Bool) : Prop :=
  named (ascii "transfer-encoding") con.kept = [] ∧
    if !con.head && (con.responseStream.isSome || gzip) then
      named (ascii "content-length") con.kept = [] ∧
        bodiless con.head con.responseCode = false ∧
        (gzip = true → (rt.gzip (con.responseStream.getD [])).flatten = con.body)
    else
      gzip = false ∧
        match named (ascii "content-length") con.kept with
        | [] => con.responseStream = none
        | [length] =>
          ∃ n, decimal length = some n ∧ (bodiless con.head con.responseCode = true ∨ n = 0)
        | _ => False

/-- The charset of the head can be written, and what it makes of the status line is read as
the status code. -/
def Readable (rt : Runtime) (con : HttpURLConnection) : Prop :=
  ∃ c, rt.charset (ContentType.getEncoding con.contentType) = .compatible c ∧
    (Status.lookup con.responseCode = none →
      statusCode (version ++ c.carry (con.responseMessage.getD (ascii "Unknown")) ++ [32]) =
        some con.responseCode)

/-- The values of the headers are written as the bytes they were read from. -/
def Survives (con : HttpURLConnection) (c : Charset) : Prop :=
  ∀ f ∈ con.headerFields, ∀ v ∈ f.2, c.carry v = v

end HttpURLConnection

/-! ## Lists of fields -/

/-- The values of a name in fields behind each other. -/
theorem named_append (name : Bytes) (a b : List (Bytes × Bytes)) :
    named name (a ++ b) = named name a ++ named name b := by
  rw [named, List.filter_append, List.map_append]
  rfl

/-- The values of a name in one field more. -/
theorem named_cons (name : Bytes) (f : Bytes × Bytes) (fields : List (Bytes × Bytes)) :
    named name (f :: fields) = (if lowered f.1 = name then [f.2] else []) ++ named name fields := by
  rw [named, List.filter_cons]
  by_cases h : lowered f.1 = name
  · rw [if_pos (decide_eq_true h), if_pos h]
    rfl
  · rw [if_neg (by simpa using h), if_neg h]
    rfl

/-- The end-to-end headers of fields behind each other. -/
theorem endToEnd_append (a b : List (Bytes × Bytes)) :
    endToEnd (a ++ b) = endToEnd a ++ endToEnd b := by
  rw [endToEnd, List.map_append, List.filter_append]
  rfl

/-- The end-to-end headers of one field more. -/
theorem endToEnd_cons (f : Bytes × Bytes) (fields : List (Bytes × Bytes)) :
    endToEnd (f :: fields) =
      (if lowered f.1 ∈ perConnection then [] else [(lowered f.1, f.2)]) ++ endToEnd fields := by
  rw [endToEnd, List.map_cons, List.filter_cons]
  by_cases h : lowered f.1 ∈ perConnection
  · rw [if_neg (by simpa using h), if_pos h]
    rfl
  · rw [if_pos (by simpa using h), if_neg h]
    rfl

/-- The last value is behind the others. -/
theorem HttpURLConnection.dropLast_append_last {values : List Bytes} (h : values ≠ []) :
    values.dropLast ++ [last values] = values := by
  rw [last, List.getLast?_eq_some_getLast h]
  exact List.dropLast_append_getLast h

/-- An element between two lists is brought to the front of what follows. -/
theorem perm_extract {α : Type} {x : α} {front whole a b : List α} (h : whole.Perm (a ++ b)) :
    (front ++ [x] ++ whole).Perm ([x] ++ a ++ (front ++ b)) := by
  classical
  rw [List.perm_iff_count] at h ⊢
  intro y
  have hy := h y
  simp only [List.count_append] at hy ⊢
  omega

/-- The values of header fields, the last ones of each first. -/
theorem perm_values {fs : List (Option Bytes × List Bytes)} (h : ∀ f ∈ fs, f.2 ≠ []) :
    (fs.flatMap fun (name, values) =>
      match name with
      | some name => values.map fun v => (name, v)
      | none => []).Perm
    ((fs.flatMap fun f => (f.1.map fun name => (name, HttpURLConnection.last f.2)).toList) ++
      fs.flatMap fun f => (f.1.map fun name => f.2.dropLast.map fun v => (name, v)).getD []) := by
  induction fs with
  | nil => exact List.Perm.nil
  | cons f fs ih =>
    obtain ⟨hne, hfs⟩ := List.forall_mem_cons.mp h
    obtain ⟨key, values⟩ := f
    simp only [List.flatMap_cons]
    cases key with
    | none => exact ih hfs
    | some name =>
      have hvalues : values.map (fun v => (name, v)) =
          values.dropLast.map (fun v => (name, v)) ++ [(name, HttpURLConnection.last values)] := by
        conv_lhs => rw [← HttpURLConnection.dropLast_append_last (show values ≠ [] from hne)]
        rw [List.map_append]
        rfl
      show (values.map (fun v => (name, v)) ++ _).Perm
        ([(name, HttpURLConnection.last values)] ++ _ ++ (values.dropLast.map _ ++ _))
      rw [hvalues]
      exact perm_extract (ih hfs)

/-- **The headers of the response** are the last values and the other ones. -/
theorem endToEnd_fields (con : HttpURLConnection) :
    (endToEnd con.fields).Perm (endToEnd con.kept ++ endToEnd con.lost) := by
  have h := perm_values fun f hf => (con.values f hf).1
  rw [← endToEnd_append]
  exact (h.map _).filter _

/-! ## The maps of a response -/

namespace Response

/-- A map with one entry more. -/
theorem get_put (map : List (Option Bytes × Bytes)) (k k' : Option Bytes) (v : Bytes) :
    get (put map k v) k' = if k' = k then some v else get map k' := by
  unfold get put
  rw [List.find?_append, List.find?_filter]
  by_cases h : k' = k
  · subst h
    have hnone : (map.find? fun e =>
        decide (decide (e.1 ≠ k') = true ∧ decide (e.1 = k') = true)) = none := by
      rw [List.find?_eq_none]
      intro e _
      simp
    rw [if_pos rfl, hnone]
    simp
  · have hsame : (fun e : Option Bytes × Bytes =>
        decide (decide (e.1 ≠ k) = true ∧ decide (e.1 = k') = true)) =
          fun e => decide (e.1 = k') := by
      funext e
      by_cases he : e.1 = k'
      · rw [he]
        simp [h]
      · simp [he]
    rw [if_neg h, hsame]
    have hlast : [(k, v)].find? (fun e => decide (e.1 = k')) = none := by
      simp [Ne.symm h]
    rw [hlast, Option.or_none]

/-- A response with other header maps. -/
def withHeaders (r : Response) (header lowerCaseHeader : List (Option Bytes × Bytes)) : Response :=
  { r with header := header, lowerCaseHeader := lowerCaseHeader }

/-- The values of one name: the last one stays. -/
theorem foldl_values (r : Response) (key : Option Bytes) {values : List Bytes} (h : values ≠ []) :
    ∃ low, values.foldl (fun r value => r.addHeader key value) r =
        r.withHeaders (put r.header key (HttpURLConnection.last values)) low ∧
      ∀ n, (get low n).isSome = ((get r.lowerCaseHeader n).isSome || n = key.map lowered) := by
  induction values using List.reverseRecOn with
  | nil => exact absurd rfl h
  | append_singleton values v ih =>
    rw [List.foldl_append, List.foldl_cons, List.foldl_nil]
    have hlast : HttpURLConnection.last (values ++ [v]) = v := by
      rw [HttpURLConnection.last, List.getLast?_concat]
      rfl
    rw [hlast]
    by_cases hvalues : values = []
    · subst hvalues
      refine ⟨put r.lowerCaseHeader (key.map lowered) v, rfl, fun n => ?_⟩
      rw [get_put]
      split <;> simp_all
    · obtain ⟨low, heq, hlow⟩ := ih hvalues
      refine ⟨put low (key.map lowered) v, ?_, fun n => ?_⟩
      · rw [heq]
        unfold addHeader withHeaders put
        simp only [List.filter_append, List.filter_filter, Bool.and_self]
        simp
      · rw [get_put]
        split
        · next hn => simp [hn]
        · exact hlow n

/-- The headers of a connection: the last value of each name. -/
theorem foldl_headerFields (fs : List (Option Bytes × List Bytes)) (r : Response)
    (hvalues : ∀ f ∈ fs, f.2 ≠ []) (hkeys : (fs.map Prod.fst).Nodup)
    (hnew : ∀ f ∈ fs, ∀ e ∈ r.header, e.1 ≠ f.1) :
    ∃ low, fs.foldl (fun r (key, values) =>
        values.foldl (fun r value => r.addHeader key value) r) r =
        r.withHeaders (r.header ++ fs.map fun f => (f.1, HttpURLConnection.last f.2)) low ∧
      ∀ n, (get low n).isSome =
        ((get r.lowerCaseHeader n).isSome || fs.any fun f => n = f.1.map lowered) := by
  induction fs generalizing r with
  | nil => exact ⟨r.lowerCaseHeader, by rw [List.map_nil, List.append_nil]; rfl, fun n => by simp⟩
  | cons f fs ih =>
    obtain ⟨key, values⟩ := f
    obtain ⟨hne, hvalues⟩ := List.forall_mem_cons.mp hvalues
    obtain ⟨hfirst, hnew⟩ := List.forall_mem_cons.mp hnew
    rw [List.map_cons, List.nodup_cons] at hkeys
    dsimp only at hne hfirst
    obtain ⟨low, heq, hlow⟩ := foldl_values r key hne
    have hput : put r.header key (HttpURLConnection.last values) =
        r.header ++ [(key, HttpURLConnection.last values)] := by
      unfold put
      rw [List.filter_eq_self.mpr]
      intro e he
      exact decide_eq_true (hfirst e he)
    rw [hput] at heq
    obtain ⟨low', heq', hlow'⟩ := ih
      (r.withHeaders (r.header ++ [(key, HttpURLConnection.last values)]) low) hvalues hkeys.2 (by
        intro g hg e he
        rcases List.mem_append.mp he with he | he
        · exact hnew g hg e he
        · rw [List.mem_singleton.mp he]
          exact fun heq => hkeys.1 (heq ▸ List.mem_map_of_mem hg))
    refine ⟨low', ?_, fun n => ?_⟩
    · rw [List.foldl_cons]
      dsimp only
      rw [heq, heq']
      unfold withHeaders
      simp
    · rw [hlow' n]
      show ((get low n).isSome || _) = _
      rw [hlow n, List.any_cons, Bool.or_assoc]

end Response

/-! ## The response that is sent -/

namespace HttpURLConnection

variable (con : HttpURLConnection) (acceptsGzip keepAlive : Bool)

/-- A name is in the headers when the last values have it. -/
theorem any_headerFields (name : Bytes) :
    (con.headerFields.any fun f => some name = f.1.map lowered) =
      !(named name con.kept).isEmpty := by
  unfold kept
  induction con.headerFields with
  | nil => rfl
  | cons f fs ih =>
    rw [List.any_cons, List.flatMap_cons, named_append, ih]
    obtain ⟨_ | key, values⟩ := f
    · rfl
    · dsimp only [Option.map_some, Option.toList_some]
      rw [named_cons]
      by_cases h : lowered key = name
      · simp [h]
      · simp [h, Ne.symm h, named]

/-- What `send` finds in the response of the relay. -/
structure Sent (e : Response) : Prop where
  status : e.status = (Status.lookup con.responseCode).getD
    (con.responseMessage.getD (ascii "Unknown"))
  mimeType : e.mimeType = con.contentType
  data : e.data = con.responseStream.getD []
  contentLength : e.contentLength = if con.responseStream.isSome then -1 else 0
  header : e.header = Response.put (con.headerFields.map fun f => (f.1, last f.2))
    (some (ascii "Connection")) (ascii "close")
  getHeader : ∀ name, lowered name ≠ ascii "connection" →
    (e.getHeader name).isSome = !(named (lowered name) con.kept).isEmpty
  connection : (e.getHeader (ascii "connection")).isSome = true
  head : e.head = con.head
  chunkedTransfer : e.chunkedTransfer = con.responseStream.isSome
  gzipUsage : e.gzipUsage = if acceptsGzip then .DEFAULT else .NEVER

/-- **The response of the relay.**
SOURCE: WebService.kt:590-603 -/
theorem sent_execute : con.Sent acceptsGzip (WebService.execute con acceptsGzip keepAlive) := by
  obtain ⟨low, heq, hlow⟩ := Response.foldl_headerFields con.headerFields
    (Response.newChunkedResponse ((Status.lookup con.responseCode).getD
      (con.responseMessage.getD (ascii "Unknown"))) con.contentType con.responseStream)
    (fun f hf => (con.values f hf).1) con.keys (fun f _ e he => (List.not_mem_nil he).elim)
  have hget : ∀ name, ((WebService.execute con acceptsGzip keepAlive).getHeader name).isSome =
      (decide (lowered name = ascii "connection") || !(named (lowered name) con.kept).isEmpty) := by
    intro name
    have hmap : (WebService.execute con acceptsGzip keepAlive).lowerCaseHeader =
        Response.put low (some (lowered (ascii "Connection"))) (ascii "close") := by
      unfold WebService.execute WebService.relay
      dsimp only
      rw [heq]
      rfl
    rw [Response.getHeader, hmap, Response.get_put, ← any_headerFields]
    have hconnection : lowered (ascii "Connection") = ascii "connection" := by decide
    rw [hconnection]
    by_cases h : lowered name = ascii "connection"
    · simp [h]
    · rw [if_neg fun heq => h (Option.some.inj heq), hlow, decide_eq_false h, Bool.false_or]
      rfl
  constructor
  case header =>
    unfold WebService.execute WebService.relay
    dsimp only
    rw [heq]
    rfl
  case getHeader =>
    intro name hname
    rw [hget, decide_eq_false hname, Bool.false_or]
  case connection =>
    rw [hget]
    simp
    left
    decide
  case contentLength =>
    unfold WebService.execute WebService.relay
    dsimp only
    rw [heq]
    show (if con.responseStream.isNone then (0 : Int) else -1) = _
    cases con.responseStream <;> rfl
  case chunkedTransfer =>
    unfold WebService.execute WebService.relay
    dsimp only
    rw [heq]
    show decide ((if con.responseStream.isNone then (0 : Int) else -1) < 0) = _
    cases con.responseStream <;> rfl
  case head => rfl
  all_goals
    unfold WebService.execute WebService.relay
    dsimp only
    rw [heq]
    rfl

/-- The body is sent in chunks. -/
def chunked (gzip : Bool) : Bool := !con.head && (con.responseStream.isSome || gzip)

/-- The header lines of the response of the relay. -/
def headerLines : List (Bytes × Bytes) :=
  (Response.put (con.headerFields.map fun f => (f.1, last f.2)) (some (ascii "Connection"))
    (ascii "close")).map fun e => (e.1.getD (ascii "null"), e.2)

/-- The header lines of the framing. -/
def framingLines (gzip : Bool) : List (Bytes × Bytes) :=
  if con.chunked gzip then [(ascii "Transfer-Encoding", ascii "chunked")]
  else if gzip || !(named (ascii "content-length") con.kept).isEmpty then []
  else [(ascii "Content-Length", if con.responseStream.isSome then ascii "-1" else ascii "0")]

/-- All header lines that are sent. -/
def sentFields (rt : Runtime) (gzip : Bool) : List (Bytes × Bytes) :=
  (con.contentType.map fun m => (ascii "Content-Type", m)).toList ++
    (if (named (ascii "date") con.kept).isEmpty then [(ascii "Date", rt.now)] else []) ++
    con.headerLines ++
    (if gzip then [(ascii "Content-Encoding", ascii "gzip")] else []) ++
    con.framingLines gzip

/-- The bytes that are sent behind the head. -/
def sentBody (rt : Runtime) (gzip : Bool) : Bytes :=
  let data := con.responseStream.getD []
  if con.chunked gzip then writeChunks (if gzip then rt.gzip data else data)
  else if gzip then (rt.gzip data).flatten
  else []

variable {con acceptsGzip keepAlive} {e : Response} {rt : Runtime}

/-- What is not sent in chunks gives no bytes. -/
theorem body_of_not_chunked (h : con.chunked false = false) : con.body = [] := by
  unfold chunked at h
  rw [Bool.or_false] at h
  unfold body
  cases hstream : con.responseStream with
  | none => rfl
  | some data =>
    rw [hstream] at h
    -- it answers a `HEAD` request
    have hhead : con.head = true := by simpa using h
    obtain ⟨hinput, herror⟩ := con.noBody (by unfold bodiless; rw [hhead]; rfl)
    unfold responseStream at hstream
    split at hstream
    · cases hstream
      exact hinput
    · rw [hstream] at herror
      exact herror

/-- The response has a content-length when one of the kept headers is one. -/
theorem Sent.contentLengthHeader (h : con.Sent acceptsGzip e) :
    (e.getHeader (ascii "content-length")).isSome =
      !(named (ascii "content-length") con.kept).isEmpty :=
  h.getHeader (ascii "content-length") (by decide)

/-- `send` settles on compressing or not. -/
theorem Sent.settled_eq (h : con.Sent acceptsGzip e) : e.settled =
    { e with
      gzipUsage :=
        if (named (ascii "content-length") con.kept).isEmpty then e.gzipUsage else .NEVER
      chunkedTransfer := con.responseStream.isSome || con.gzipped acceptsGzip } := by
  unfold Response.settled
  rw [h.contentLengthHeader]
  unfold gzipped Response.useGzipWhenAccepted
  have hchunked := h.chunkedTransfer
  have hgzip := h.gzipUsage
  have hmime := h.mimeType
  cases hlength : (named (ascii "content-length") con.kept).isEmpty with
  | false =>
    simp only [Bool.not_false, if_true, Bool.and_false, Bool.false_and, Bool.or_false, ← hchunked]
    rfl
  | true =>
    simp only [Bool.not_true, Bool.false_eq_true, if_false, if_true, hgzip, hmime, Bool.and_true]
    cases acceptsGzip with
    | false =>
      cases e
      simp_all
    | true =>
      simp only [if_true, Bool.true_and]
      split
      · next htext => rw [htext, Bool.or_true]
      · next htext =>
        rw [Bool.not_eq_true] at htext
        rw [htext, Bool.or_false]
        cases e
        simp_all

/-- It compresses what is to be compressed. -/
theorem Sent.useGzip (h : con.Sent acceptsGzip e) :
    e.settled.useGzipWhenAccepted = con.gzipped acceptsGzip := by
  rw [h.settled_eq]
  unfold Response.useGzipWhenAccepted gzipped
  have hgzip := h.gzipUsage
  have hmime := h.mimeType
  dsimp only
  cases (named (ascii "content-length") con.kept).isEmpty <;> cases acceptsGzip <;>
    simp [hgzip, hmime]

/-- It frames the body as its headers say. -/
theorem Sent.framing (h : con.Sent acceptsGzip e) :
    e.settled.framing.1 = con.framingLines (con.gzipped acceptsGzip) := by
  unfold Response.framing framingLines
  rw [h.useGzip]
  have hlength : (e.settled.getHeader (ascii "content-length")).isSome =
      !(named (ascii "content-length") con.kept).isEmpty := by
    rw [h.settled_eq]
    exact h.contentLengthHeader
  have hhead : e.settled.head = con.head := by
    rw [h.settled_eq]
    exact h.head
  have hchunked : e.settled.chunkedTransfer =
      (con.responseStream.isSome || con.gzipped acceptsGzip) := by
    rw [h.settled_eq]
  have hpending : e.settled.contentLength = if con.responseStream.isSome then -1 else 0 := by
    rw [h.settled_eq]
    exact h.contentLength
  rw [hhead, hchunked]
  show (if con.chunked _ = true then _ else _ : List _ × Int).1 = _
  cases con.chunked (con.gzipped acceptsGzip) with
  | true => rfl
  | false =>
    cases con.gzipped acceptsGzip with
    | true => rfl
    | false =>
      rw [← hlength]
      cases e.settled.getHeader (ascii "content-length") with
      | some length => rfl
      | none =>
        show [(ascii "Content-Length", Response.printed e.settled.contentLength)] = _
        rw [hpending]
        cases con.responseStream <;> rfl

/-- **The header lines that are sent.** -/
theorem Sent.fields (h : con.Sent acceptsGzip e) :
    e.printedHeaders rt ++ e.settled.framing.1 = con.sentFields rt (con.gzipped acceptsGzip) := by
  have hdate : (e.getHeader (ascii "date")).isNone = (named (ascii "date") con.kept).isEmpty := by
    have hsome := h.getHeader (ascii "date") (by decide)
    have hlowered : lowered (ascii "date") = ascii "date" := by decide
    rw [hlowered] at hsome
    rw [← Option.not_isSome, hsome, Bool.not_not]
  unfold Response.printedHeaders sentFields headerLines
  rw [h.framing, h.useGzip, h.mimeType, hdate, h.header]
  have hconnection : (e.getHeader (ascii "connection")).isNone = false := by
    cases hget : e.getHeader (ascii "connection") with
    | none =>
      have hsome := h.connection
      rw [hget] at hsome
      cases hsome
    | some v => rfl
  rw [hconnection]
  simp

/-- **The bytes that are sent behind the head.** -/
theorem Sent.rest (h : con.Sent acceptsGzip e) (pending : Int) :
    Response.sendBodyWithCorrectTransferAndEncoding rt e.settled pending =
      con.sentBody rt (con.gzipped acceptsGzip) := by
  unfold Response.sendBodyWithCorrectTransferAndEncoding Response.sendBodyWithCorrectEncoding
    sentBody
  rw [h.useGzip]
  have hdata : e.settled.data = con.responseStream.getD [] := by
    rw [h.settled_eq]
    exact h.data
  have hhead : e.settled.head = con.head := by
    rw [h.settled_eq]
    exact h.head
  have hchunked : e.settled.chunkedTransfer =
      (con.responseStream.isSome || con.gzipped acceptsGzip) := by
    rw [h.settled_eq]
  have hall : ∀ data, Response.sendBody data (-1) = data := fun data => if_pos rfl
  rw [hhead, hchunked, hdata, hall]
  show (if con.chunked _ = true then _ else _) = if con.chunked _ = true then _ else _
  cases hcase : con.chunked (con.gzipped acceptsGzip) with
  | true => rfl
  | false =>
    cases hgzip : con.gzipped acceptsGzip with
    | true => rfl
    | false =>
      have hempty : (con.responseStream.getD []).flatten = [] :=
        body_of_not_chunked (hgzip ▸ hcase)
      show (Response.sendBody (con.responseStream.getD []) pending).flatten = []
      unfold Response.sendBody
      split
      · exact hempty
      · rw [hempty, List.take_nil]
        rfl

/-! ## Its headers -/

variable (con) in
/-- The relayed headers: the last value of each name, and that the connection closes. -/
theorem headerLines_eq : con.headerLines =
    ((con.headerFields.map fun f => (f.1, last f.2)).filter fun e =>
      e.1 ≠ some (ascii "Connection")).map (fun e => (e.1.getD (ascii "null"), e.2)) ++
        [(ascii "Connection", ascii "close")] := by
  unfold headerLines Response.put
  rw [List.map_append]
  rfl

variable (con) in
/-- The framing that is found in the headers of the response. -/
theorem named_headerLines {name : Bytes} (hnull : name ≠ ascii "null")
    (hconnection : name ≠ ascii "connection") :
    named name con.headerLines = named name con.kept := by
  have hlowered : lowered (ascii "Connection") = ascii "connection" := by decide
  have hlowered' : lowered (ascii "null") = ascii "null" := by decide
  rw [headerLines_eq, named_append, named_cons, hlowered, if_neg (Ne.symm hconnection)]
  unfold kept
  show named name _ ++ ([] ++ []) = _
  rw [List.append_nil, List.append_nil]
  induction con.headerFields with
  | nil => rfl
  | cons f fs ih =>
    rw [List.flatMap_cons, named_append, ← ih, List.map_cons, List.filter_cons]
    obtain ⟨_ | key, values⟩ := f
    · rw [if_pos (by simp), List.map_cons]
      show named name ((ascii "null", last values) :: _) = _
      rw [named_cons, hlowered', if_neg (Ne.symm hnull)]
      rfl
    · by_cases hkey : key = ascii "Connection"
      · rw [if_neg (by simp [hkey])]
        dsimp only [Option.map_some, Option.toList_some]
        rw [named_cons, hkey, hlowered, if_neg (Ne.symm hconnection)]
        rfl
      · rw [if_pos (by simp [hkey]), List.map_cons, named_cons]
        dsimp only [Option.map_some, Option.toList_some, Option.getD_some]
        rw [named_cons]
        rw [show named name [] = [] from rfl, List.append_nil]

variable (con) in
/-- Of the relayed headers those kept are end-to-end, and the unnamed ones. -/
theorem endToEnd_headerLines :
    (endToEnd con.headerLines).Perm
      (endToEnd con.kept ++ con.unnamed.map fun v => (ascii "null", v)) := by
  have hconnection : lowered (ascii "Connection") ∈ perConnection := by decide
  have hnull : lowered (ascii "null") = ascii "null" := by decide
  have hnull' : ascii "null" ∉ perConnection := by decide
  rw [headerLines_eq, endToEnd_append, endToEnd_cons, if_pos hconnection]
  show (endToEnd _ ++ ([] ++ [])).Perm _
  rw [List.append_nil, List.append_nil]
  unfold kept unnamed
  induction con.headerFields with
  | nil => exact List.Perm.nil
  | cons f fs ih =>
    rw [List.flatMap_cons, List.flatMap_cons, endToEnd_append, List.map_append, List.map_cons,
      List.filter_cons]
    obtain ⟨_ | key, values⟩ := f
    · rw [if_pos (by simp), List.map_cons, if_pos rfl]
      show (endToEnd ((ascii "null", last values) :: _)).Perm _
      rw [endToEnd_cons, hnull, if_neg hnull']
      exact (List.Perm.cons _ ih).trans List.perm_middle.symm
    · by_cases hkey : key = ascii "Connection"
      · rw [if_neg (by simp [hkey])]
        dsimp only [Option.map_some, Option.toList_some]
        rw [endToEnd_cons, hkey, if_pos hconnection, if_neg (Option.some_ne_none _)]
        exact ih
      · rw [if_pos (by simp [hkey]), List.map_cons, endToEnd_cons]
        dsimp only [Option.map_some, Option.toList_some, Option.getD_some]
        rw [endToEnd_cons, if_neg (Option.some_ne_none _), List.append_assoc, List.append_assoc]
        exact List.Perm.append_left _ ih

/-- None of the framing headers is. -/
theorem endToEnd_framingLines (gzip : Bool) : endToEnd (con.framingLines gzip) = [] := by
  unfold framingLines
  split
  · exact (by decide : endToEnd [(ascii "Transfer-Encoding", ascii "chunked")] = [])
  split
  · rfl
  · have hlength : lowered (ascii "Content-Length") ∈ perConnection := by decide
    rw [endToEnd_cons, if_pos hlength]
    rfl

variable (con rt) in
/-- **The end-to-end headers that are sent**: the last values and the lines added. -/
theorem endToEnd_sentFields (gzip : Bool) :
    (endToEnd (con.sentFields rt gzip)).Perm (endToEnd con.kept ++ con.added rt gzip) := by
  have htype : endToEnd (con.contentType.map fun m => (ascii "Content-Type", m)).toList =
      (con.contentType.map fun m => (ascii "content-type", m)).toList := by
    cases con.contentType with
    | none => rfl
    | some m =>
      have hlowered : lowered (ascii "Content-Type") = ascii "content-type" := by decide
      have hname : ascii "content-type" ∉ perConnection := by decide
      show endToEnd [(ascii "Content-Type", m)] = _
      rw [endToEnd_cons, hlowered, if_neg hname]
      rfl
  have hdate : endToEnd (if (named (ascii "date") con.kept).isEmpty then
        [(ascii "Date", rt.now)] else []) =
      if (named (ascii "date") con.kept).isEmpty then [(ascii "date", rt.now)] else [] := by
    have hlowered : lowered (ascii "Date") = ascii "date" := by decide
    have hname : ascii "date" ∉ perConnection := by decide
    split
    · rw [endToEnd_cons, hlowered, if_neg hname]
      rfl
    · rfl
  have hgzip : endToEnd (if gzip then [(ascii "Content-Encoding", ascii "gzip")] else []) =
      if gzip then [(ascii "content-encoding", ascii "gzip")] else [] := by
    cases gzip
    · rfl
    · exact (by decide : endToEnd [(ascii "Content-Encoding", ascii "gzip")] =
        [(ascii "content-encoding", ascii "gzip")])
  unfold sentFields added
  rw [endToEnd_append, endToEnd_append, endToEnd_append, endToEnd_append, htype, hdate, hgzip,
    endToEnd_framingLines, List.append_nil]
  have hlines := List.perm_iff_count.mp con.endToEnd_headerLines
  rw [List.perm_iff_count]
  intro f
  have hf := hlines f
  simp only [List.count_append] at hf ⊢
  omega

/-- **The headers are kept** exactly if the lines lost are the lines added. -/
theorem endToEnd_kept_iff (gzip : Bool) :
    (endToEnd (con.sentFields rt gzip)).Perm (endToEnd con.fields) ↔
      (con.added rt gzip).Perm (endToEnd con.lost) := by
  constructor
  · intro h
    exact (List.perm_append_left_iff (endToEnd con.kept)).mp
      (((con.endToEnd_sentFields rt gzip).symm.trans h).trans (endToEnd_fields con))
  · intro h
    exact ((con.endToEnd_sentFields rt gzip).trans
      ((List.perm_append_left_iff (endToEnd con.kept)).mpr h)).trans (endToEnd_fields con).symm

/-! ## Its framing -/

/-- What is sent under a name was kept under it, or frames the body. -/
theorem named_sentFields {name : Bytes} (gzip : Bool)
    (hnull : name ≠ ascii "null") (hconnection : name ≠ ascii "connection")
    (htype : name ≠ ascii "content-type") (hdate : name ≠ ascii "date")
    (hgzip : name ≠ ascii "content-encoding") :
    named name (con.sentFields rt gzip) =
      named name con.kept ++ named name (con.framingLines gzip) := by
  have htypes : named name (con.contentType.map fun m => (ascii "Content-Type", m)).toList = [] := by
    cases con.contentType with
    | none => rfl
    | some m =>
      have hlowered : lowered (ascii "Content-Type") = ascii "content-type" := by decide
      show named name [(ascii "Content-Type", m)] = _
      rw [named_cons, hlowered, if_neg (Ne.symm htype)]
      rfl
  have hdates : named name (if (named (ascii "date") con.kept).isEmpty then
      [(ascii "Date", rt.now)] else []) = [] := by
    have hlowered : lowered (ascii "Date") = ascii "date" := by decide
    split
    · rw [named_cons, hlowered, if_neg (Ne.symm hdate)]
      rfl
    · rfl
  have hgzips : named name (if gzip then [(ascii "Content-Encoding", ascii "gzip")] else []) = [] := by
    have hlowered : lowered (ascii "Content-Encoding") = ascii "content-encoding" := by decide
    split
    · rw [named_cons, hlowered, if_neg (Ne.symm hgzip)]
      rfl
    · rfl
  unfold sentFields
  rw [named_append, named_append, named_append, named_append, htypes, hdates, hgzips,
    con.named_headerLines hnull hconnection, List.append_nil, List.nil_append, List.nil_append]

variable (con) in
/-- The framing headers by their names. -/
theorem named_framingLines (gzip : Bool) :
    named (ascii "transfer-encoding") (con.framingLines gzip) =
        (if con.chunked gzip then [ascii "chunked"] else []) ∧
      named (ascii "content-length") (con.framingLines gzip) =
        if con.chunked gzip then []
        else if gzip || !(named (ascii "content-length") con.kept).isEmpty then []
        else [if con.responseStream.isSome then ascii "-1" else ascii "0"] := by
  have hlowered : lowered (ascii "Content-Length") = ascii "content-length" := by decide
  unfold framingLines
  split
  · exact ⟨by decide, by decide⟩
  split
  · exact ⟨rfl, rfl⟩
  · rw [named_cons, named_cons, hlowered, if_neg (by decide), if_pos rfl]
    exact ⟨rfl, rfl⟩

/-- What is compressed has no content-length. -/
theorem contentLength_of_gzipped (h : con.gzipped acceptsGzip = true) :
    named (ascii "content-length") con.kept = [] := by
  unfold gzipped at h
  simp only [Bool.and_eq_true, List.isEmpty_iff] at h
  exact h.1.2

/-- A chunked body is read back when the headers frame it. -/
theorem content_chunked (h : con.chunked (con.gzipped acceptsGzip) = true) :
    content con.head con.responseCode (con.sentFields rt (con.gzipped acceptsGzip))
        (con.sentBody rt (con.gzipped acceptsGzip)) = some con.body ↔
      con.Framed rt (con.gzipped acceptsGzip) := by
  obtain ⟨hcoding, hlength⟩ := con.named_framingLines (con.gzipped acceptsGzip)
  unfold Framed content
  rw [named_sentFields _ (by decide) (by decide) (by decide) (by decide) (by decide),
    named_sentFields _ (by decide) (by decide) (by decide) (by decide) (by decide), hcoding,
    hlength, if_pos h, if_pos h]
  rw [show (!con.head && (con.responseStream.isSome || con.gzipped acceptsGzip)) = true from h,
    if_pos rfl, List.append_nil]
  have hbody : con.sentBody rt (con.gzipped acceptsGzip) = writeChunks
      (if con.gzipped acceptsGzip then rt.gzip (con.responseStream.getD [])
        else con.responseStream.getD []) := if_pos h
  rw [hbody]
  rcases named (ascii "transfer-encoding") con.kept with _ | ⟨t, _ | ⟨t', ts⟩⟩
  · rcases named (ascii "content-length") con.kept with _ | ⟨l, ls⟩
    · dsimp only [List.nil_append]
      rw [if_neg (by decide)]
      cases bodiless con.head con.responseCode with
      | true =>
        rw [if_pos rfl, if_neg (writeChunks_ne_nil _)]
        exact ⟨nofun, fun h => nomatch h.2.2.1⟩
      | false =>
        rw [if_neg (by decide), unchunk_writeChunks]
        dsimp only
        cases con.gzipped acceptsGzip with
        | true =>
          rw [if_pos rfl, Option.some.injEq]
          exact ⟨fun h => ⟨rfl, rfl, rfl, fun _ => h⟩, fun h => h.2.2.2 rfl⟩
        | false => exact ⟨fun _ => ⟨rfl, rfl, rfl, nofun⟩, fun _ => rfl⟩
    · exact ⟨nofun, fun h => nomatch h.2.1⟩
  · refine ⟨fun h => ?_, fun h => nomatch h.1⟩
    rcases named (ascii "content-length") con.kept with _ | ⟨l, ls⟩ <;> cases h
  · refine ⟨fun h => ?_, fun h => nomatch h.1⟩
    rcases named (ascii "content-length") con.kept with _ | ⟨l, ls⟩ <;> cases h

/-- A compressed body that is not chunked is not read back. -/
theorem content_gzipped (h : con.chunked true = false)
    (hlength : named (ascii "content-length") con.kept = []) :
    content con.head con.responseCode (con.sentFields rt true) (con.sentBody rt true) = none := by
  have hframing : con.framingLines true = [] := by
    unfold framingLines
    rw [if_neg (by rw [h]; decide)]
    rfl
  have hcoding : named (ascii "transfer-encoding") (con.sentFields rt true) =
      named (ascii "transfer-encoding") con.kept := by
    rw [named_sentFields _ (by decide) (by decide) (by decide) (by decide) (by decide), hframing]
    exact List.append_nil _
  have hnoLength : named (ascii "content-length") (con.sentFields rt true) = [] := by
    rw [named_sentFields _ (by decide) (by decide) (by decide) (by decide) (by decide), hframing,
      hlength]
    rfl
  have hbodiless : bodiless con.head con.responseCode = true := by
    unfold chunked at h
    rw [Bool.or_true, Bool.and_true] at h
    have hhead : con.head = true := by simpa using h
    rw [bodiless, hhead]
    rfl
  have hbody : con.sentBody rt true = (rt.gzip (con.responseStream.getD [])).flatten := by
    unfold sentBody
    rw [h]
    rfl
  unfold content
  rw [hcoding, hnoLength, hbodiless, hbody]
  rcases named (ascii "transfer-encoding") con.kept with _ | ⟨t, _ | ⟨t', ts⟩⟩
  · exact if_neg (rt.gzip_ne_nil _)
  · dsimp only
    rw [if_pos rfl, if_neg (rt.gzip_ne_nil _), ite_self]
  · rfl

/-- A body that is neither is read back when the headers frame it. -/
theorem content_plain (h : con.chunked false = false) :
    content con.head con.responseCode (con.sentFields rt false) (con.sentBody rt false) =
        some con.body ↔ con.Framed rt false := by
  have hbody : con.sentBody rt false = [] := by
    unfold sentBody
    rw [h]
    rfl
  have hcoding : named (ascii "transfer-encoding") (con.sentFields rt false) =
      named (ascii "transfer-encoding") con.kept := by
    rw [named_sentFields _ (by decide) (by decide) (by decide) (by decide) (by decide),
      (con.named_framingLines false).1, if_neg (by rw [h]; decide), List.append_nil]
  have hlength : named (ascii "content-length") (con.sentFields rt false) =
      named (ascii "content-length") con.kept ++
        if (named (ascii "content-length") con.kept).isEmpty then
          [if con.responseStream.isSome then ascii "-1" else ascii "0"] else [] := by
    rw [named_sentFields _ (by decide) (by decide) (by decide) (by decide) (by decide),
      (con.named_framingLines false).2, if_neg (by rw [h]; decide), Bool.false_or]
    cases (named (ascii "content-length") con.kept).isEmpty <;> rfl
  have hunchunked : (!con.head && (con.responseStream.isSome || false)) = false := h
  have hzero : decimal (ascii "0") = some 0 := by decide
  have hminus : decimal (ascii "-1") = none := by decide
  unfold Framed content
  rw [hcoding, hlength, hbody, body_of_not_chunked h, hunchunked]
  rcases named (ascii "content-length") con.kept with _ | ⟨l, _ | ⟨l', ls⟩⟩
  · simp only [List.isEmpty_nil, if_true, List.nil_append]
    rcases named (ascii "transfer-encoding") con.kept with _ | ⟨t, ts⟩
    · cases con.responseStream with
      | none => cases bodiless con.head con.responseCode <;> simp [hzero]
      | some data => simp [hminus]
    · simp
  · simp only [List.isEmpty_cons, Bool.false_eq_true, if_false, List.append_nil]
    rcases named (ascii "transfer-encoding") con.kept with _ | ⟨t, ts⟩
    · dsimp only
      cases decimal l with
      | none => simp
      | some n => cases bodiless con.head con.responseCode <;> simp [eq_comm]
    · simp
  · simp

/-- **The body that is read** is the one of the response exactly if the framings agree.
SOURCE: Response.java:225-365 -/
theorem content_sent (con : HttpURLConnection) (rt : Runtime) (acceptsGzip : Bool) :
    content con.head con.responseCode (con.sentFields rt (con.gzipped acceptsGzip))
        (con.sentBody rt (con.gzipped acceptsGzip)) = some con.body ↔
      con.Framed rt (con.gzipped acceptsGzip) := by
  cases hchunked : con.chunked (con.gzipped acceptsGzip) with
  | true => exact content_chunked hchunked
  | false =>
    cases hgzip : con.gzipped acceptsGzip with
    | true =>
      rw [hgzip] at hchunked
      rw [content_gzipped hchunked (contentLength_of_gzipped hgzip)]
      refine ⟨nofun, fun hframed => ?_⟩
      have helse := hframed.2
      rw [show (!con.head && (con.responseStream.isSome || true)) = false from hchunked,
        if_neg (by decide)] at helse
      cases helse.1
    | false =>
      rw [hgzip] at hchunked
      exact content_plain hchunked

/-! ## What is written of its head -/

/-- A byte of an ASCII value. -/
theorem lt_of_all {v : Bytes} (h : v.all (· < 128)) : ∀ b ∈ v, b < 128 := fun b hb =>
  of_decide_eq_true (List.all_eq_true.mp h b hb)

/-- The characters of a token are ASCII. -/
theorem tchar_lt {b : UInt8} (h : tchar b = true) : b < 128 := by
  unfold tchar at h
  simp only [Bool.or_eq_true, Bool.and_eq_true, decide_eq_true_eq, List.contains_iff_mem] at h
  have hbelow : ∀ n : UInt8, n < 128 → b ≤ n → b < 128 := fun n hn hb => UInt8.lt_of_le_of_lt hb hn
  rcases h with ((h | h) | h) | h
  · exact hbelow 57 (by decide) h.2
  · exact hbelow 90 (by decide) h.2
  · exact hbelow 122 (by decide) h.2
  · exact lt_of_all (by decide : (ascii "!#$%&'*+-.^_`|~").all (· < 128)) b h

/-- A token is written as it was read. -/
theorem carry_token (c : Charset) {name : Bytes} (h : IsToken name) : c.carry name = name :=
  c.ascii name fun b hb => tchar_lt (h.2 b hb)

/-- The last value is one of the values. -/
theorem last_mem {values : List Bytes} (h : values ≠ []) : last values ∈ values := by
  rw [last, List.getLast?_eq_some_getLast h]
  exact List.getLast_mem h

/-- **Every line that is sent** has a name and a value, and its value is the one of a header
of the response, or an ASCII one. -/
theorem sentFields_spec (con : HttpURLConnection) (rt : Runtime) (gzip : Bool) :
    ∀ f ∈ con.sentFields rt gzip, IsToken f.1 ∧ IsValue f.2 ∧
      ((∃ g ∈ con.headerFields, f.2 ∈ g.2) ∨ ∀ b ∈ f.2, b < 128) := by
  intro f hf
  unfold sentFields at hf
  rw [List.mem_append, List.mem_append, List.mem_append, List.mem_append] at hf
  rcases hf with (((hf | hf) | hf) | hf) | hf
  · rw [Option.mem_toList] at hf
    obtain ⟨m, hm, rfl⟩ := Option.map_eq_some_iff.mp hf
    obtain ⟨g, hg, name, hname, -, hmem⟩ := con.typed m hm
    exact ⟨(by decide : IsToken (ascii "Content-Type")), (con.values g hg).2 m hmem,
      .inl ⟨g, hg, hmem⟩⟩
  · split at hf
    · obtain rfl := List.mem_singleton.mp hf
      exact ⟨(by decide : IsToken (ascii "Date")), rt.now_value, .inr rt.now_ascii⟩
    · cases hf
  · rw [headerLines_eq, List.mem_append, List.mem_map] at hf
    rcases hf with ⟨e, he, rfl⟩ | hf
    · obtain ⟨g, hg, rfl⟩ := List.mem_map.mp (List.mem_filter.mp he).1
      have hmem := last_mem (con.values g hg).1
      refine ⟨?_, (con.values g hg).2 _ hmem, .inl ⟨g, hg, hmem⟩⟩
      cases hkey : g.1 with
      | none => exact (by decide : IsToken (ascii "null"))
      | some name => exact con.names g hg name hkey
    · obtain rfl := List.mem_singleton.mp hf
      exact ⟨by decide, by decide, .inr (lt_of_all (by decide))⟩
  · split at hf
    · obtain rfl := List.mem_singleton.mp hf
      exact ⟨by decide, by decide, .inr (lt_of_all (by decide))⟩
    · cases hf
  · unfold framingLines at hf
    split at hf
    · obtain rfl := List.mem_singleton.mp hf
      exact ⟨by decide, by decide, .inr (lt_of_all (by decide))⟩
    split at hf
    · cases hf
    · obtain rfl := List.mem_singleton.mp hf
      refine ⟨(by decide : IsToken (ascii "Content-Length")), ?_⟩
      cases con.responseStream.isSome
      · exact ⟨by decide, .inr (lt_of_all (by decide))⟩
      · exact ⟨by decide, .inr (lt_of_all (by decide))⟩

/-- The description `send` prints in the status line. -/
def description (con : HttpURLConnection) : Bytes :=
  (Status.lookup con.responseCode).getD (con.responseMessage.getD (ascii "Unknown"))

/-- Every status nanohttpd knows can be written, and reads as its code. -/
theorem statusValues_spec : ∀ s ∈ Status.values,
    IsValue (ascii (toString s.1 ++ " " ++ s.2)) ∧
      (∀ b ∈ ascii (toString s.1 ++ " " ++ s.2), b < 128) ∧
        statusCode (version ++ ascii (toString s.1 ++ " " ++ s.2) ++ [32]) = some s.1 := by
  have hspec : ∀ s ∈ Status.values, IsValue (ascii (toString s.1 ++ " " ++ s.2)) ∧
      (ascii (toString s.1 ++ " " ++ s.2)).all (· < 128) ∧
        statusCode (version ++ ascii (toString s.1 ++ " " ++ s.2) ++ [32]) = some s.1 := by
    decide +kernel
  intro s hs
  obtain ⟨hvalue, hascii, hcode⟩ := hspec s hs
  exact ⟨hvalue, lt_of_all hascii, hcode⟩

/-- **A known status** is read as its code. -/
theorem lookup_spec {code : Nat} {d : Bytes} (h : Status.lookup code = some d) (c : Charset) :
    IsValue d ∧ statusCode (version ++ c.carry d ++ [32]) = some code := by
  unfold Status.lookup at h
  obtain ⟨s, hs, rfl⟩ := Option.map_eq_some_iff.mp h
  obtain ⟨hvalue, hascii, hcode⟩ := statusValues_spec s (List.mem_of_find?_eq_some hs)
  have heq : s.1 = code := by simpa using List.find?_some hs
  rw [c.ascii _ hascii, hcode]
  exact ⟨hvalue, congrArg some heq⟩

/-- The description can be written in a status line. -/
theorem description_isValue (con : HttpURLConnection) : IsValue con.description := by
  unfold description
  cases hlookup : Status.lookup con.responseCode with
  | some d => exact (lookup_spec hlookup ⟨id, fun _ _ => rfl, fun _ h => h⟩).1
  | none =>
    cases hmessage : con.responseMessage with
    | none => exact (by decide : IsValue (ascii "Unknown"))
    | some m => exact con.message m hmessage

/-- The lines that are sent, as they are written in a charset. -/
def written (con : HttpURLConnection) (rt : Runtime) (gzip : Bool) (c : Charset) :
    List (Bytes × Bytes) :=
  (con.sentFields rt gzip).map fun f => (f.1, c.carry f.2)

/-- A token is the same in every charset that keeps ASCII. -/
theorem written_eq (c : Charset) (gzip : Bool) :
    (con.sentFields rt gzip).map (fun (name, value) => (c.carry name, c.carry value)) =
      con.written rt gzip c := by
  refine List.map_congr_left fun f hf => ?_
  show (c.carry f.1, c.carry f.2) = _
  rw [carry_token c (con.sentFields_spec rt gzip f hf).1]

variable (con rt acceptsGzip keepAlive) in
/-- **What a client reads** of a response written in a charset that keeps ASCII. -/
theorem parse_answer {c : Charset}
    (hcharset : rt.charset (ContentType.getEncoding con.contentType) = .compatible c)
    (head : Bool) :
    parse head (WebService.answer rt con acceptsGzip keepAlive) =
      (statusCode (version ++ c.carry con.description ++ [32])).bind fun code =>
        (content head code (con.written rt (con.gzipped acceptsGzip) c)
          (con.sentBody rt (con.gzipped acceptsGzip))).map fun body =>
            ⟨code, con.written rt (con.gzipped acceptsGzip) c, body⟩ := by
  have hsent := con.sent_execute acceptsGzip keepAlive
  have hspec := con.sentFields_spec rt (con.gzipped acceptsGzip)
  have hanswer : WebService.answer rt con acceptsGzip keepAlive =
      writeHead (version ++ c.carry con.description ++ [32])
        (con.written rt (con.gzipped acceptsGzip) c) ++
          con.sentBody rt (con.gzipped acceptsGzip) := by
    unfold WebService.answer Response.send
    dsimp only
    rw [hsent.mimeType, hcharset]
    dsimp only
    rw [hsent.fields, written_eq, hsent.rest, hsent.status]
    rfl
  have hdescription := c.value _ con.description_isValue
  have hfirst : 13 ∉ version ++ c.carry con.description ++ [32] := by
    rw [List.mem_append, List.mem_append]
    rintro ((h | h) | h)
    · revert h
      decide
    · exact hdescription.noReturn h
    · revert h
      decide
  rw [hanswer, parse_write (by simp [version, ascii]) hfirst]
  intro f hf
  obtain ⟨g, hg, rfl⟩ := List.mem_map.mp hf
  exact ⟨(hspec g hg).1, c.value _ (hspec g hg).2.1⟩

/-- Written in another charset, it is no response. -/
theorem charset_of_parse {m : Message} {head : Bool}
    (h : parse head (WebService.answer rt con acceptsGzip keepAlive) = some m) :
    ∃ c, rt.charset (ContentType.getEncoding con.contentType) = .compatible c := by
  have hsent := con.sent_execute acceptsGzip keepAlive
  unfold WebService.answer Response.send at h
  dsimp only at h
  rw [hsent.mimeType] at h
  cases hcharset : rt.charset (ContentType.getEncoding con.contentType) with
  | compatible c => exact ⟨c, rfl⟩
  | unsupported =>
    rw [hcharset] at h
    cases h
  | foreign encode hforeign =>
    rw [hcharset] at h
    dsimp only at h
    rw [parse_of_not_version] at h
    · cases h
    · refine hforeign _ ?_ _
      exact ⟨_, by simp only [writeHead, List.flatMap_cons, writeLine, List.append_assoc]; rfl⟩

/-- Where the values survive the charset, what is written is what is sent. -/
theorem written_of_survives {gzip : Bool} {c : Charset} (h : con.Survives c) :
    con.written rt gzip c = con.sentFields rt gzip := by
  unfold written
  refine (List.map_congr_left fun f hf => ?_).trans (List.map_id _)
  obtain ⟨-, -, ⟨g, hg, hmem⟩ | hascii⟩ := con.sentFields_spec rt gzip f hf
  · rw [h g hg f.2 hmem]
    rfl
  · rw [c.ascii f.2 hascii]
    rfl

/-- The names of the end-to-end headers do not depend on their values. -/
theorem names_endToEnd (fields : List (Bytes × Bytes)) : (endToEnd fields).map Prod.fst =
    (fields.map fun f => lowered f.1).filter fun name => name ∉ perConnection := by
  induction fields with
  | nil => rfl
  | cons f fields ih =>
    rw [endToEnd_cons, List.map_append, ih, List.map_cons, List.filter_cons]
    by_cases h : lowered f.1 ∈ perConnection <;> simp [h]

/-- **The status line is sent as a header** of the name `null`, and only a repeated header of
that name makes up for it. -/
theorem null_lost (hunnamed : con.unnamed ≠ [])
    (hrelayed : Relayed con (WebService.answer rt con acceptsGzip keepAlive)) :
    named (ascii "null") con.lost ≠ [] := by
  obtain ⟨m, hparse, -, hfields, -⟩ := hrelayed
  obtain ⟨c, hcharset⟩ := charset_of_parse hparse
  rw [parse_answer con acceptsGzip keepAlive rt hcharset] at hparse
  obtain ⟨code, -, hparse⟩ := Option.bind_eq_some_iff.mp hparse
  obtain ⟨body, -, rfl⟩ := Option.map_eq_some_iff.mp hparse
  -- the names that are sent
  have hnames := hfields.map Prod.fst
  have hwritten : (con.written rt (con.gzipped acceptsGzip) c).map (fun f => lowered f.1) =
      (con.sentFields rt (con.gzipped acceptsGzip)).map fun f => lowered f.1 := by
    unfold written
    rw [List.map_map]
    rfl
  dsimp only at hnames
  rw [names_endToEnd, hwritten, ← names_endToEnd] at hnames
  have hadded := ((con.endToEnd_sentFields rt (con.gzipped acceptsGzip)).map Prod.fst).symm.trans
    (hnames.trans ((endToEnd_fields con).map Prod.fst))
  rw [List.map_append, List.map_append, List.perm_append_left_iff] at hadded
  obtain ⟨v, hv⟩ := List.exists_mem_of_ne_nil _ hunnamed
  have hnull : ascii "null" ∈ (con.added rt (con.gzipped acceptsGzip)).map Prod.fst := by
    refine List.mem_map.mpr ⟨(ascii "null", v), ?_, rfl⟩
    exact List.mem_append_left _ (List.mem_append_right _ (List.mem_map_of_mem hv))
  obtain ⟨f, hf, hname⟩ := List.mem_map.mp (hadded.mem_iff.mp hnull)
  obtain ⟨g, hg, rfl⟩ := List.mem_map.mp (List.mem_filter.mp hf).1
  intro hnone
  have hmem : g.2 ∈ named (ascii "null") con.lost :=
    List.mem_map.mpr ⟨g, List.mem_filter.mpr ⟨hg, decide_eq_true hname⟩, rfl⟩
  rw [hnone] at hmem
  cases hmem

end HttpURLConnection

namespace WebService

/-- **The relay of a response.** A response that is presented with its status line is never
relayed, unless it repeats a header of the name `null`. And whatever is presented, when its
values are written as they were read the client reads the response of Moonraker exactly if
the status is readable, the lines lost are the lines added, and the framings agree.
SOURCE: WebService.kt:590-603, Response.java:225-365 -/
theorem response_relayed_iff (rt : Runtime) (con : HttpURLConnection)
    (acceptsGzip keepAlive : Bool) :
    (con.unnamed ≠ [] → named (ascii "null") con.lost = [] →
      ¬Relayed con (answer rt con acceptsGzip keepAlive)) ∧
    ((∀ c, rt.charset (ContentType.getEncoding con.contentType) = .compatible c →
        con.Survives c) →
      (Relayed con (answer rt con acceptsGzip keepAlive) ↔
        con.Readable rt ∧
          (con.added rt (con.gzipped acceptsGzip)).Perm (endToEnd con.lost) ∧
            con.Framed rt (con.gzipped acceptsGzip))) := by
  refine ⟨fun hunnamed hlost hrelayed => con.null_lost hunnamed hrelayed hlost,
    fun hsurvives => ?_⟩
  constructor
  · rintro ⟨m, hparse, hcode, hfields, hbody⟩
    obtain ⟨c, hcharset⟩ := HttpURLConnection.charset_of_parse hparse
    rw [con.parse_answer acceptsGzip keepAlive rt hcharset,
      HttpURLConnection.written_of_survives (hsurvives c hcharset)] at hparse
    obtain ⟨code, hstatus, hparse⟩ := Option.bind_eq_some_iff.mp hparse
    obtain ⟨body, hcontent, rfl⟩ := Option.map_eq_some_iff.mp hparse
    dsimp only at hcode hfields hbody
    subst hcode hbody
    refine ⟨⟨c, hcharset, fun hlookup => ?_⟩, con.endToEnd_kept_iff _ |>.mp hfields,
      (con.content_sent rt acceptsGzip).mp hcontent⟩
    rw [← hstatus, HttpURLConnection.description, hlookup]
    rfl
  · rintro ⟨⟨c, hcharset, hmessage⟩, hlines, hframed⟩
    have hcontent := (con.content_sent rt acceptsGzip).mpr hframed
    have hstatus : statusCode (version ++ c.carry con.description ++ [32]) =
        some con.responseCode := by
      unfold HttpURLConnection.description
      cases hlookup : Status.lookup con.responseCode with
      | none => exact hmessage hlookup
      | some d => exact (HttpURLConnection.lookup_spec hlookup c).2
    refine ⟨⟨con.responseCode, con.sentFields rt (con.gzipped acceptsGzip), con.body⟩, ?_, rfl,
      con.endToEnd_kept_iff _ |>.mpr hlines, rfl⟩
    rw [con.parse_answer acceptsGzip keepAlive rt hcharset,
      HttpURLConnection.written_of_survives (hsurvives c hcharset), hstatus]
    show (content _ _ _ _).map _ = _
    rw [hcontent]
    rfl

/-- A runtime whose charsets write every value as it was read. -/
def plainRuntime : Runtime where
  charset := fun _ => .compatible ⟨id, fun _ _ => rfl, fun _ h => h⟩
  now := ascii "Thu, 1 Jan 1970 00:00:00 GMT"
  now_value := by decide +kernel
  now_ascii := HttpURLConnection.lt_of_all (by decide +kernel)
  gzip := fun writes => [[31, 139]] ++ writes
  gzip_ne_nil := fun writes h => by simp at h

/-- The header fields of a response, presented with its status line or without. -/
def dated (statusLine : Bool) : List (Option Bytes × List Bytes) :=
  (if statusLine then [(none, [ascii "HTTP/1.1 200 OK"])] else []) ++
    [(some (ascii "Server"), [ascii "TornadoServer"]),
      (some (ascii "Date"), [ascii "Thu, 19 Nov 2026 00:00:00 GMT"])]

/-- A response with these header fields and two bytes of body. -/
def twoBytes (statusLine : Bool) : HttpURLConnection where
  head := false
  responseCode := 200
  responseMessage := some (ascii "OK")
  contentType := none
  headerFields := dated statusLine
  inputStream := [[123, 125]]
  errorStream := none
  keys := by cases statusLine <;> decide +kernel
  names := by cases statusLine <;> decide +kernel
  values := by cases statusLine <;> decide +kernel
  message := by decide +kernel
  typed := nofun
  untyped := fun _ => by cases statusLine <;> decide +kernel
  noBody := nofun

/-- Without its status line that response is relayed. -/
theorem response_relayed_iff_unnamed : Relayed (twoBytes false)
    (answer plainRuntime (twoBytes false) true true) := by
  have hsurvives : ∀ c, plainRuntime.charset (ContentType.getEncoding none) = .compatible c →
      (twoBytes false).Survives c := by
    rintro c hc f - v -
    cases hc
    rfl
  refine ((response_relayed_iff plainRuntime (twoBytes false) true true).2 hsurvives).mpr
    ⟨⟨_, rfl, nofun⟩, ?_, ?_⟩
  · have hnone : (twoBytes false).added plainRuntime
        ((twoBytes false).gzipped true) = [] := by decide +kernel
    have hlost : endToEnd (twoBytes false).lost = [] := by decide +kernel
    rw [hnone, hlost]
  · exact ⟨by decide +kernel, by decide +kernel, by decide +kernel, nofun⟩

/-- The status line of any response is sent as a header.
SOURCE: WebService.kt:598-602 -/
theorem response_not_relayed :
    ¬∀ (rt : Runtime) (con : HttpURLConnection) (acceptsGzip keepAlive : Bool),
      con.unnamed ≠ [] → Relayed con (answer rt con acceptsGzip keepAlive) := by
  intro h
  have hunnamed : (twoBytes true).unnamed ≠ [] := by decide +kernel
  exact HttpURLConnection.null_lost hunnamed (h plainRuntime (twoBytes true) true true hunnamed)
    (by decide +kernel)

end WebService

end Cream.Model
