import Cream.Model.WebService

/-!
# The body of a proxied request

The header block of a request is found whatever the pieces are in which the bytes arrive
(`readHead_block`), if it fits into the buffer. The body is then copied until the connection
ends, and the length the request gives is not looked at. So the proxy forwards the body it
was sent exactly when the client closes its side right behind it; on a connection that stays
open it never comes to the response.
-/

set_option autoImplicit false

namespace Cream.Model

open Cream.Library PercentCoding

namespace HTTPSession

variable {i k : Nat} {b x block body buf : Bytes} {pieces : List Bytes} {inflow : Inflow}

/-! ## The end of the header block -/

/-- The end that is found lies inside. -/
theorem findHeaderEndFrom_le : findHeaderEndFrom i b = 0 ∨
    i < findHeaderEndFrom i b ∧ findHeaderEndFrom i b ≤ i + b.length := by
  fun_induction findHeaderEndFrom i b with
  | case1 i rest => right; simp
  | case2 i rest => right; simp
  | case3 i c rest h₁ h₂ ih =>
    rcases ih with ih | ih
    · exact .inl ih
    · rw [List.length_cons]
      exact .inr ⟨by omega, by omega⟩
  | case4 i => exact .inl rfl

/-- **An end that is found stays where it is** when more bytes arrive. -/
theorem findHeaderEndFrom_append (h : 0 < findHeaderEndFrom i b) :
    findHeaderEndFrom i (b ++ x) = findHeaderEndFrom i b := by
  fun_induction findHeaderEndFrom i b with
  | case1 i rest => simp [findHeaderEndFrom]
  | case2 i rest => simp [findHeaderEndFrom]
  | case3 i c rest h₁ h₂ ih =>
    have hrest := ih h
    rw [List.cons_append]
    -- the four bytes are not completed by what arrives: then nothing would be found behind
    rw [findHeaderEndFrom]
    · exact hrest
    · intro tail hc happend
      subst hc
      match rest, h₁, h with
      | [], _, h => simp [findHeaderEndFrom] at h
      | [d], _, h => simp [findHeaderEndFrom] at h
      | [d, e], _, h =>
        simp only [List.cons_append, List.nil_append, List.cons.injEq] at happend
        obtain ⟨rfl, rfl, -⟩ := happend
        simp [findHeaderEndFrom] at h
      | d :: e :: f :: rest, h₁, _ =>
        simp only [List.cons_append, List.cons.injEq] at happend
        obtain ⟨rfl, rfl, rfl, -⟩ := happend
        exact h₁ rest rfl rfl
    · intro tail hc happend
      subst hc
      match rest, h₂, h with
      | [], _, h => simp [findHeaderEndFrom] at h
      | d :: rest, h₂, _ =>
        simp only [List.cons_append, List.cons.injEq] at happend
        obtain ⟨rfl, -⟩ := happend
        exact h₂ rest rfl rfl
  | case4 i => simp at h

/-- The bytes are a header block: its end is their end. -/
def IsBlock (block : Bytes) : Prop := block ≠ [] ∧ findHeaderEnd block = block.length

instance (block : Bytes) : Decidable (IsBlock block) := inferInstanceAs (Decidable (_ ∧ _))

/-- A header block is not empty. -/
theorem IsBlock.length_pos (h : IsBlock block) : 0 < block.length := List.length_pos_iff.mpr h.1

/-- The end of a block is found in anything that begins with it. -/
theorem IsBlock.findHeaderEnd_append (h : IsBlock block) :
    findHeaderEnd (block ++ x) = block.length := by
  have hfound : 0 < findHeaderEndFrom 0 block := by
    show 0 < findHeaderEnd block
    rw [h.2]
    exact h.length_pos
  exact (findHeaderEndFrom_append hfound).trans h.2

/-- No end is found before the block is complete. -/
theorem IsBlock.findHeaderEnd_eq_zero (h : IsBlock (b ++ x)) (hx : x ≠ []) :
    findHeaderEnd b = 0 := by
  by_contra hne
  have hfound := findHeaderEndFrom_append (x := x) (Nat.pos_of_ne_zero hne)
  have hlength : findHeaderEndFrom 0 (b ++ x) = (b ++ x).length := h.2
  have hle : findHeaderEndFrom 0 b = 0 ∨ _ := findHeaderEndFrom_le
  rcases hle with hzero | ⟨-, hle⟩
  · exact hne hzero
  · rw [hlength, List.length_append] at hfound
    have hpos := List.length_pos_iff.mpr hx
    omega

/-! ## Filling the buffer -/

/-- No byte is lost or moved. -/
theorem fill_bytes : (fill buf pieces).1 ++ (fill buf pieces).2.flatten = buf ++ pieces.flatten := by
  induction pieces generalizing buf with
  | nil => rfl
  | cons piece rest ih =>
    unfold fill
    dsimp only
    split
    · rw [List.flatten_cons, List.flatten_cons, List.append_assoc, ← List.append_assoc
        (List.take _ piece), List.take_append_drop]
    · next h =>
      rw [not_or, not_not] at h
      have hpiece : piece.take (BUFSIZE - buf.length) = piece := by
        have := List.take_append_drop (BUFSIZE - buf.length) piece
        rwa [h.2, List.append_nil] at this
      rw [ih, hpiece, List.flatten_cons, List.append_assoc]

/-- The buffer is never filled beyond its size. -/
theorem length_fill (h : buf.length ≤ BUFSIZE) : (fill buf pieces).1.length ≤ BUFSIZE := by
  induction pieces generalizing buf with
  | nil => exact h
  | cons piece rest ih =>
    have hread : (buf ++ piece.take (BUFSIZE - buf.length)).length ≤ BUFSIZE := by
      rw [List.length_append, List.length_take]
      omega
    unfold fill
    dsimp only
    split
    · exact hread
    · exact ih hread

/-- **The whole block is read**, if it fits, in whatever pieces it arrives. -/
theorem fill_block (h : IsBlock block) (hsize : block.length ≤ BUFSIZE)
    (hbytes : buf ++ pieces.flatten = block ++ body) (hshort : buf.length < block.length) :
    ∃ tail, (fill buf pieces).1 = block ++ tail := by
  induction pieces generalizing buf with
  | nil =>
    -- the bytes have ended inside the block
    have hlength := congrArg List.length hbytes
    simp only [List.flatten_nil, List.append_nil, List.length_append] at hlength
    omega
  | cons piece rest ih =>
    set read := piece.take (BUFSIZE - buf.length) with hread
    set left := piece.drop (BUFSIZE - buf.length) with hleft
    have hsplit : (buf ++ read) ++ (left ++ rest.flatten) = block ++ body := by
      rw [← hbytes, List.flatten_cons, List.append_assoc, ← List.append_assoc read,
        List.take_append_drop]
    have hunfold : fill buf (piece :: rest) =
        if 0 < findHeaderEnd (buf ++ read) ∨ left ≠ [] then (buf ++ read, left :: rest)
        else fill (buf ++ read) rest := rfl
    rw [hunfold]
    by_cases hlong : block.length ≤ (buf ++ read).length
    · obtain ⟨tail, htail⟩ : ∃ tail, buf ++ read = block ++ tail := by
        rcases List.append_eq_append_iff.mp hsplit with ⟨t, ht, -⟩ | ⟨t, ht, -⟩
        · refine ⟨[], ?_⟩
          have hlength := congrArg List.length ht
          rw [List.length_append] at hlength
          have hnil : t = [] := List.eq_nil_of_length_eq_zero (by omega)
          rw [ht, hnil, List.append_nil, List.append_nil]
        · exact ⟨t, ht⟩
      have hfound : 0 < findHeaderEnd (buf ++ read) := by
        rw [htail, h.findHeaderEnd_append]
        exact h.length_pos
      rw [if_pos (.inl hfound)]
      exact ⟨tail, htail⟩
    · have hmore : (buf ++ read).length < block.length := Nat.lt_of_not_le hlong
      obtain ⟨t, ht⟩ : ∃ t, block = (buf ++ read) ++ t := by
        rcases List.append_eq_append_iff.mp hsplit with ⟨t, ht, -⟩ | ⟨t, ht, -⟩
        · exact ⟨t, ht⟩
        · rw [ht, List.length_append] at hmore
          omega
      have ht' : t ≠ [] := by
        rintro rfl
        rw [List.append_nil] at ht
        rw [ht] at hmore
        exact lt_irrefl _ hmore
      have hblock : IsBlock ((buf ++ read) ++ t) := ht ▸ h
      have hzero : findHeaderEnd (buf ++ read) = 0 := hblock.findHeaderEnd_eq_zero ht'
      have hnone : left = [] := by
        -- the piece has left room in the buffer
        have hroom : buf.length + (piece.take (BUFSIZE - buf.length)).length < block.length := by
          rw [← List.length_append]
          exact hmore
        rw [List.length_take] at hroom
        rw [hleft, List.drop_eq_nil_iff]
        omega
      rw [if_neg (by rw [hzero, hnone]; simp)]
      refine ih ?_ hmore
      rw [← hsplit, hnone, List.nil_append]

/-- **The head of a request.** The stream of the session begins behind the header block when
the block fits into the buffer, and with the block itself when it does not.
SOURCE: HTTPSession.java:338-390 -/
theorem readHead_block (h : IsBlock block) (hbytes : inflow.bytes = block ++ body) {head : Head}
    (hread : readHead inflow = some head) :
    head.rest.closed = inflow.closed ∧
      head.rest.bytes = if block.length ≤ BUFSIZE then body else block ++ body := by
  have hconserve : (fill [] inflow.pieces).1 ++ (fill [] inflow.pieces).2.flatten =
      [] ++ inflow.pieces.flatten := fill_bytes
  rw [List.nil_append, show inflow.pieces.flatten = block ++ body from hbytes] at hconserve
  unfold readHead at hread
  rcases hfill : fill [] inflow.pieces with ⟨buf, left⟩
  rw [hfill] at hread hconserve
  dsimp only at hread hconserve
  split at hread
  · cases hread
  split at hread
  · cases hread
  cases hread
  refine ⟨rfl, ?_⟩
  have hrest : Inflow.bytes { pieces := buf.drop (findHeaderEnd buf) :: left, closed := inflow.closed } =
      (block ++ body).drop (findHeaderEnd buf) := by
    have hend : findHeaderEnd buf ≤ buf.length := by
      rcases (findHeaderEndFrom_le : findHeaderEndFrom 0 buf = 0 ∨ _) with hzero | ⟨-, hle⟩
      · exact hzero.le.trans (Nat.zero_le _)
      · unfold findHeaderEnd
        omega
    rw [← hconserve, List.drop_append_of_le_length hend]
    rfl
  rw [hrest]
  split
  · next hsize =>
    obtain ⟨tail, htail⟩ : ∃ tail, (fill [] inflow.pieces).1 = block ++ tail :=
      fill_block h hsize hbytes h.length_pos
    rw [hfill] at htail
    dsimp only at htail
    rw [htail, h.findHeaderEnd_append, List.drop_left]
  · next hsize =>
    have hshort : buf.length ≤ BUFSIZE := by
      have : (fill [] inflow.pieces).1.length ≤ BUFSIZE := length_fill (Nat.zero_le _)
      rwa [hfill] at this
    obtain ⟨t, ht⟩ : ∃ t, block = buf ++ t := by
      rcases List.append_eq_append_iff.mp hconserve with ⟨t, ht, -⟩ | ⟨t, ht, -⟩
      · exact ⟨t, ht⟩
      · have hlength := congrArg List.length ht
        rw [List.length_append] at hlength
        omega
    have ht' : t ≠ [] := by
      rintro rfl
      rw [List.append_nil] at ht
      rw [ht] at hsize
      exact hsize hshort
    have hblock : IsBlock (buf ++ t) := ht ▸ h
    rw [hblock.findHeaderEnd_eq_zero ht', List.drop_zero]

end HTTPSession

/-! ## The body -/

namespace WebService

open HTTPSession

variable {block body out : Bytes} {pieces : List Bytes} {closed : Bool} {inflow rest : Inflow}

/-- The copy takes everything, and ends when the connection does. -/
theorem copyTo_eq : copyTo out pieces closed = (out ++ pieces.flatten, closed) := by
  induction pieces generalizing out with
  | nil => rw [copyTo, List.flatten_nil, List.append_nil]
  | cons piece rest ih => rw [copyTo, ih, List.flatten_cons, List.append_assoc]

/-- The value of a decimal text. -/
def decimal (t : Text) : Option Nat :=
  if t ≠ [] ∧ t.all (fun c => c.isDigit) then
    some (t.foldl (fun n c => 10 * n + (c.toNat - '0'.toNat)) 0)
  else none

/-- The length a request gives for its body. -/
def contentLength (request : HttpRequest) : Option Nat :=
  (request.headers.lookup "content-length".toList).bind decimal

/-- The bytes behind the header block that the request gives the length of are forwarded, no
byte beyond them is taken from the session, and the response of Moonraker is asked for. -/
def BodyRelayed (request : HttpRequest) (body : Bytes) (proxied : Proxied) : Prop :=
  ∃ n ∈ contentLength request, proxied.body = some (body.take n) ∧
    proxied.unread = body.drop n ∧ proxied.responding = true

/-- **The body of a request** is relayed exactly when its header block fits into the buffer
and the client closes the connection right behind the body. A connection that stays open is
never left.
SOURCE: WebService.kt:572-590, HTTPSession.java:338-390 -/
theorem body_relayed_iff {query : Option Text} {request : HttpRequest} {port n : Nat}
    {proxied : Proxied} (hblock : IsBlock block) (hbytes : inflow.bytes = block ++ body)
    (hreceive : receive query inflow = some (request, rest))
    (hmethod : request.method ∈ bodyMethods) (hlength : contentLength request = some n)
    (hbody : n ≤ body.length) (hserve : serveApi port request rest = some proxied) :
    BodyRelayed request body proxied ↔
      inflow.closed = true ∧ body.length = n ∧ block.length ≤ BUFSIZE := by
  obtain ⟨head, hhead, hrest⟩ := Option.bind_eq_some_iff.mp hreceive
  obtain ⟨request', -, hfinal⟩ := Option.bind_eq_some_iff.mp hrest
  have hrest : rest = head.rest := by
    simp only [Option.ite_none_right_eq_some, Option.some.injEq, Prod.mk.injEq] at hfinal
    exact hfinal.2.2.symm
  obtain ⟨hclosed, hstream⟩ := readHead_block hblock hbytes hhead
  have hproxied : proxied.body = some rest.bytes ∧ proxied.unread = [] ∧
      proxied.responding = rest.closed := by
    unfold serveApi at hserve
    split at hserve
    · simp only [copyTo_eq, Option.some.injEq] at hserve
      subst hserve
      exact ⟨rfl, rfl, rfl⟩
    · cases hserve
  obtain ⟨hforwarded, hunread, hresponding⟩ := hproxied
  unfold BodyRelayed
  rw [hforwarded, hunread, hresponding, hrest, hclosed, hstream, hlength]
  simp only [Option.mem_def, Option.some.injEq, exists_eq_left']
  constructor
  · rintro ⟨htake, hdrop, hend⟩
    have hall : body.length = n := by
      have hle := List.drop_eq_nil_iff.mp hdrop.symm
      omega
    refine ⟨hend, hall, ?_⟩
    by_contra hlong
    -- the block itself has been forwarded with the body
    have hlengths := congrArg List.length htake
    rw [if_neg hlong, List.length_append, List.length_take] at hlengths
    have hpos := hblock.length_pos
    omega
  · rintro ⟨hend, hall, hsize⟩
    rw [if_pos hsize, ← hall, List.take_length, List.drop_length]
    exact ⟨rfl, rfl, hend⟩

/-- A header block with a body of two bytes. -/
def postBlock : Bytes :=
  utf8Encode "POST /server/files HTTP/1.1\r\nContent-Length: 2\r\n\r\n".toList

/-- The request arrives in two pieces, the first of which ends inside the header block. -/
def postInflow (closed : Bool) : Inflow where
  pieces := [postBlock.take 20, postBlock.drop 20 ++ [104, 105]]
  closed := closed

/-- `serve` on that request. -/
def postProxied (closed : Bool) : Option (HttpRequest × Inflow × Proxied) := do
  let (request, rest) ← receive none (postInflow closed)
  let proxied ← serveApi 7125 request rest
  some (request, rest, proxied)

/-- The request is accepted and forwarded. -/
theorem postProxied_spec (closed : Bool) : ∃ request rest proxied,
    receive none (postInflow closed) = some (request, rest) ∧
      request.method ∈ bodyMethods ∧ contentLength request = some 2 ∧
      serveApi 7125 request rest = some proxied := by
  have hrun : (postProxied closed).any (fun (request, _, _) =>
      request.method ∈ bodyMethods ∧ contentLength request = some 2) = true := by
    cases closed <;> decide +kernel
  obtain ⟨⟨request, rest, proxied⟩, hsome, hrequest⟩ := (Option.any_eq_true _ _).mp hrun
  obtain ⟨hmethod, hlength⟩ := of_decide_eq_true hrequest
  unfold postProxied at hsome
  obtain ⟨⟨request', rest'⟩, hreceive, hsome⟩ := Option.bind_eq_some_iff.mp hsome
  obtain ⟨proxied', hserve, hsome⟩ := Option.bind_eq_some_iff.mp hsome
  cases hsome
  exact ⟨request, rest, proxied, hreceive, hmethod, hlength, hserve⟩

/-- The client closes the connection behind the two bytes, and they are relayed. -/
theorem body_relayed_iff_closed : ∃ request rest proxied,
    receive none (postInflow true) = some (request, rest) ∧
      serveApi 7125 request rest = some proxied ∧ BodyRelayed request [104, 105] proxied := by
  obtain ⟨request, rest, proxied, hreceive, hmethod, hlength, hserve⟩ := postProxied_spec true
  have hblock : IsBlock postBlock := by decide +kernel
  have hbytes : (postInflow true).bytes = postBlock ++ [104, 105] := by decide +kernel
  exact ⟨request, rest, proxied, hreceive, hserve,
    (body_relayed_iff hblock hbytes hreceive hmethod hlength (by decide) hserve).mpr
      ⟨rfl, rfl, by decide +kernel⟩⟩

/-- The client keeps the connection open for the response, and the copy never ends.
SOURCE: WebService.kt:584-588 -/
theorem body_not_relayed :
    ¬∀ (block body : Bytes) (inflow : Inflow) (query : Option Text) (request : HttpRequest)
      (rest : Inflow) (port n : Nat) (proxied : Proxied),
      IsBlock block → inflow.bytes = block ++ body →
        receive query inflow = some (request, rest) → request.method ∈ bodyMethods →
          contentLength request = some n → n ≤ body.length → inflow.closed = false →
            serveApi port request rest = some proxied → BodyRelayed request body proxied := by
  intro h
  obtain ⟨request, rest, proxied, hreceive, hmethod, hlength, hserve⟩ := postProxied_spec false
  have hblock : IsBlock postBlock := by decide +kernel
  have hbytes : (postInflow false).bytes = postBlock ++ [104, 105] := by decide +kernel
  obtain ⟨_, -, -, -, hresponding⟩ := h postBlock [104, 105] (postInflow false) none request rest
    7125 2 proxied hblock hbytes hreceive hmethod hlength (by decide) rfl hserve
  -- the response has not been asked for
  have hwaiting : (postProxied false).any (fun (_, _, proxied) => !proxied.responding) = true := by
    decide +kernel
  unfold postProxied at hwaiting
  rw [hreceive] at hwaiting
  simp only [Option.bind_eq_bind, Option.bind_some, hserve, Option.any_some,
    Bool.not_eq_true'] at hwaiting
  rw [hresponding] at hwaiting
  cases hwaiting

end WebService

end Cream.Model
