import Cream.Model.CameraStream

/-!
# The framing of the camera stream

`CameraService.kt`: as a client's bytes are all written by its own looper, message by message,
what a client has received is always a prefix of a multipart stream. A message that throws is
another matter: the handler of a frame quits only if its socket is closed on this side, which
nothing but `quit` does, so a client that is gone stays in `handlerThreads` and is written to
again. `stream_framed` is about the runs in which that does not happen.
-/

set_option autoImplicit false

namespace Cream.Model.CameraStream

open Cream.Library Cream.Library.Transition

/-! ## The multipart stream -/

/-- The part that carries an image. -/
def part (data : List UInt8) : List UInt8 :=
  toByteArray "--camera-frame\r\n".toList ++
    toByteArray ("Content-Type: image/jpeg\r\nContent-Length: ".toList ++
      Nat.toDigits 10 data.length ++ "\r\n\r\n".toList) ++
    data ++ toByteArray "\r\n\r\n".toList

/-- The stream of these images. -/
def multipart (frames : List (List UInt8)) : List UInt8 :=
  HEADERS ++ (frames.map part).flatten

/-- A streaming client has received a prefix of the stream of some of the frames, in their
order. -/
def Client.Streams (c : Client) (delivered : List (List UInt8)) : Prop :=
  ∃ frames, frames.Sublist delivered ∧ c.received <+: multipart frames

/-- A snapshot client has received a prefix of the headers and one frame; the whole of it when
it is closed and has not failed, and none of the frame when it is open and no message of it
runs. -/
def Client.Snaps (c : Client) (delivered : List (List UInt8)) : Prop :=
  (c.received <+: HEADERS ∨ ∃ data ∈ delivered, c.received <+: HEADERS ++ data) ∧
    (c.closed → ¬c.failed → ∃ data ∈ delivered, c.received = HEADERS ++ data) ∧
    (¬c.closed → c.running = none → c.received <+: HEADERS)

/-- The looper of a client by itself, none of whose writes fails, brings it to where it is
closed and has received the headers and one frame. -/
def Finishes (s : CameraStream) (i : Nat) : Prop :=
  ∃ as t c, (∀ a ∈ as, a = .next i ∨ a = .sent i ∨ a = .done i) ∧ run step s as = some t ∧
    t.clients[i]? = some c ∧ c.closed ∧ ∃ data ∈ s.delivered, c.received = HEADERS ++ data

/-- What the service promises of its clients. -/
def Framed (s : CameraStream) : Prop :=
  ∀ i c, s.clients[i]? = some c →
    (c.oneShot = false → c.Streams s.delivered) ∧
      (c.oneShot = true → c.Snaps s.delivered ∧ (c.posted ≠ [] → s.Finishes i)) ∧
      (c.closed → c.running = none) ∧
      (c.failed → c.closed ∧ c.retried = false ∧ i ∉ s.handlerThreads)

/-- The message of a frame runs and the socket is not closed. -/
def Client.inFrame (c : Client) : Bool :=
  match c.running with
  | some (.frame _, _) => !c.closed
  | _ => false

/-- No write of a frame fails while the socket is open on this side. -/
def Steady (s : CameraStream) : Action → Prop
  | .fails i => (s.clients[i]?).any Client.inFrame = false
  | _ => True

instance (s : CameraStream) : (a : Action) → Decidable (s.Steady a)
  | .connect _ => inferInstanceAs (Decidable True)
  | .deliverFrame _ => inferInstanceAs (Decidable True)
  | .post => inferInstanceAs (Decidable True)
  | .next _ => inferInstanceAs (Decidable True)
  | .sent _ => inferInstanceAs (Decidable True)
  | .fails _ => inferInstanceAs (Decidable (_ = false))
  | .done _ => inferInstanceAs (Decidable True)

/-! ## The stages of a client -/

/-- What is written to a client for these frames, after the headers. -/
def written (oneShot : Bool) (frames : List (List UInt8)) : List UInt8 :=
  HEADERS ++ (frames.map fun data => ((Message.frame data).writes oneShot).flatten).flatten

/-- Without a frame the headers are written. -/
theorem written_nil (oneShot : Bool) : written oneShot [] = HEADERS := List.append_nil _

/-- A further frame is written behind the others. -/
theorem written_concat (oneShot : Bool) (frames : List (List UInt8)) (data : List UInt8) :
    written oneShot (frames ++ [data]) =
      written oneShot frames ++ ((Message.frame data).writes oneShot).flatten := by
  unfold written
  rw [List.map_append, List.flatten_append, List.map_singleton, List.flatten_singleton,
    List.append_assoc]

/-- The messages of a streaming client make a multipart stream. -/
theorem written_false (frames : List (List UInt8)) : written false frames = multipart frames := by
  have hpart : ∀ data, ((Message.frame data).writes false).flatten = part data := by
    intro data
    simp [Message.writes, part]
  unfold written multipart
  simp only [hpart]

/-- A snapshot client is written the image alone. -/
theorem written_true (data : List UInt8) : written true [data] = HEADERS ++ data := by
  simp [written, Message.writes]

/-- Where a client can be when no write of a frame has failed. -/
inductive Stage : Client → Prop
  | accepted (oneShot : Bool) : Stage (.connected oneShot)
  | headers (oneShot : Bool) (received rest : List UInt8) (h : received ++ rest = HEADERS) :
    Stage ⟨oneShot, [], some (.headers, rest), false, received, [], false, false, false⟩
  | noHeaders (oneShot : Bool) (received : List UInt8) (h : received <+: HEADERS) :
    Stage ⟨oneShot, [], none, true, received, [], false, true, false⟩
  | idle (oneShot : Bool) (earlier later : List (List UInt8))
      (hshot : oneShot = true → earlier = []) :
    Stage ⟨oneShot, later.map .frame, none, false, written oneShot earlier, earlier ++ later,
      true, false, false⟩
  | frame (oneShot : Bool) (earlier later : List (List UInt8)) (data received rest : List UInt8)
      (hshot : oneShot = true → earlier = [])
      (h : received ++ rest = written oneShot (earlier ++ [data])) :
    Stage ⟨oneShot, later.map .frame, some (.frame data, rest), false, received,
      earlier ++ data :: later, true, false, false⟩
  | image (data : List UInt8) (later : List (List UInt8)) :
    Stage ⟨true, later.map .frame, none, true, HEADERS ++ data, data :: later, true, false, false⟩

variable {s t : CameraStream} {a : Action} {c : Client} {i : Nat}

/-- A client of the stream has read a beginning of frames that were posted for it. -/
theorem Stage.streams (h : Stage c) (hc : c.oneShot = false) :
    ∃ frames, frames.Sublist c.posted ∧ c.received <+: multipart frames := by
  cases h with
  | accepted oneShot => exact ⟨[], List.Sublist.refl _, List.nil_prefix⟩
  | headers oneShot received rest h =>
    exact ⟨[], List.Sublist.refl _, ⟨rest, h.trans (written_nil false).symm⟩⟩
  | noHeaders oneShot received h =>
    exact ⟨[], List.Sublist.refl _, h.trans (List.prefix_append _ _)⟩
  | idle oneShot earlier later hshot =>
    dsimp only at hc ⊢
    rw [hc, written_false]
    exact ⟨earlier, List.sublist_append_left _ _, List.prefix_refl _⟩
  | frame oneShot earlier later data received rest hshot h =>
    dsimp only at hc ⊢
    rw [hc, written_false] at h
    have hposted : earlier ++ data :: later = (earlier ++ [data]) ++ later :=
      List.append_cons earlier data later
    rw [hposted]
    exact ⟨earlier ++ [data], List.sublist_append_left _ _, ⟨rest, h⟩⟩
  | image data later => cases hc

/-- A client of the picture has read one of them. -/
theorem Stage.snaps (h : Stage c) (hc : c.oneShot = true) : c.Snaps c.posted := by
  cases h with
  | accepted oneShot =>
    exact ⟨.inl List.nil_prefix, fun hclosed => (Bool.false_ne_true hclosed).elim,
      fun _ _ => List.nil_prefix⟩
  | headers oneShot received rest h =>
    exact ⟨.inl ⟨rest, h⟩, fun hclosed => (Bool.false_ne_true hclosed).elim, fun _ _ => ⟨rest, h⟩⟩
  | noHeaders oneShot received h =>
    exact ⟨.inl h, fun _ hfailed => absurd rfl hfailed, fun _ _ => h⟩
  | idle oneShot earlier later hshot =>
    have hnone : earlier = [] := hshot hc
    have hreceived : written oneShot earlier = HEADERS := by rw [hnone, written_nil]
    have hprefix : written oneShot earlier <+: HEADERS := hreceived ▸ List.prefix_refl _
    exact ⟨.inl hprefix, fun hclosed => (Bool.false_ne_true hclosed).elim, fun _ _ => hprefix⟩
  | frame oneShot earlier later data received rest hshot h =>
    have hone : oneShot = true := hc
    have hnone : earlier = [] := hshot hc
    rw [hone, hnone, List.nil_append, written_true] at h
    refine ⟨.inr ⟨data, ?_, ⟨rest, h⟩⟩, fun hclosed => (Bool.false_ne_true hclosed).elim, ?_⟩
    · exact List.mem_append_right _ List.mem_cons_self
    · intro _ hidle
      cases hidle
  | image data later =>
    have hdata : data ∈ data :: later := List.mem_cons_self
    exact ⟨.inr ⟨data, hdata, List.prefix_refl _⟩, fun _ _ => ⟨data, hdata, rfl⟩,
      fun hopen => absurd rfl hopen⟩

/-- A closed client has nothing left to write. -/
theorem Stage.running_closed (h : Stage c) (hclosed : c.closed) : c.running = none := by
  cases h with
  | accepted oneShot => rfl
  | headers oneShot received rest h => exact absurd hclosed Bool.false_ne_true
  | noHeaders oneShot received h => rfl
  | idle oneShot earlier later hshot => rfl
  | frame oneShot earlier later data received rest hshot h =>
    exact absurd hclosed Bool.false_ne_true
  | image data later => rfl

/-- A client whose connection has failed is closed, and is not tried again. -/
theorem Stage.failed (h : Stage c) (hfailed : c.failed) : c.closed ∧ c.retried = false := by
  cases h with
  | accepted oneShot => exact absurd hfailed Bool.false_ne_true
  | headers oneShot received rest h => exact absurd hfailed Bool.false_ne_true
  | noHeaders oneShot received h => exact ⟨rfl, rfl⟩
  | idle oneShot earlier later hshot => exact absurd hfailed Bool.false_ne_true
  | frame oneShot earlier later data received rest hshot h =>
    exact absurd hfailed Bool.false_ne_true
  | image data later => exact absurd hfailed Bool.false_ne_true

/-! ## What a step does to a client -/

/-- A posted frame comes after the others, or the looper has quit. -/
theorem Stage.post (h : Stage c) (hwritten : c.headersWritten) (data : List UInt8) :
    Stage (c.post data) := by
  cases h with
  | accepted oneShot => exact absurd hwritten Bool.false_ne_true
  | headers oneShot received rest h => exact absurd hwritten Bool.false_ne_true
  | noHeaders oneShot received h => exact absurd hwritten Bool.false_ne_true
  | idle oneShot earlier later hshot =>
    have hstage := Stage.idle oneShot earlier (later ++ [data]) hshot
    rw [List.map_append, ← List.append_assoc] at hstage
    exact hstage
  | frame oneShot earlier later d received rest hshot h =>
    have hstage := Stage.frame oneShot earlier (later ++ [data]) d received rest hshot h
    rw [List.map_append, ← List.cons_append, ← List.append_assoc] at hstage
    exact hstage
  | image d later => exact .image d later

/-- Posting a frame writes no headers. -/
@[simp] theorem Client.post_headersWritten (c : Client) (data : List UInt8) :
    (c.post data).headersWritten = c.headersWritten := by
  unfold Client.post
  split <;> rfl

/-- Nor does it close the client. -/
@[simp] theorem Client.post_closed (c : Client) (data : List UInt8) :
    (c.post data).closed = c.closed := by
  unfold Client.post
  split <;> rfl

/-- At most this frame is posted. -/
theorem Client.post_posted_sublist (c : Client) (data : List UInt8) :
    (c.post data).posted.Sublist (c.posted ++ [data]) := by
  unfold Client.post
  split
  · exact List.sublist_append_left _ _
  · exact List.Sublist.refl _

/-- What the looper of a client can do to it and to `handlerThreads`. -/
structure Moves (s t : CameraStream) (i : Nat) (c c' : Client) : Prop where
  client : s.clients[i]? = some c
  stage : Stage c'
  posted : c'.posted = c.posted
  written : c.headersWritten → c'.headersWritten
  clients : t.clients = s.clients.set i c'
  delivering : t.delivering = s.delivering
  delivered : t.delivered = s.delivered
  threads : t.handlerThreads = s.handlerThreads ∧ c'.closed = c.closed ∨
    t.handlerThreads = s.handlerThreads ++ [i] ∧ c.headersWritten = false ∧ c'.headersWritten ∧
      c'.closed = false ∨
    t.handlerThreads = s.handlerThreads.erase i

/-- The looper takes the next message. -/
theorem Stage.next (h : Stage c) (hc : s.clients[i]? = some c) (hstep : s.step (.next i) = some t) :
    ∃ c', Moves s t i c c' := by
  simp only [CameraStream.step, hc, Option.bind_some] at hstep
  cases h with
  | accepted oneShot =>
    cases hstep
    have hrest : [] ++ (Message.headers.writes oneShot).flatten = HEADERS := List.append_nil _
    exact ⟨_, hc, .headers oneShot [] _ hrest, rfl, id, rfl, rfl, rfl, .inl ⟨rfl, rfl⟩⟩
  | headers oneShot received rest h => cases hstep
  | noHeaders oneShot received h => cases hstep
  | idle oneShot earlier later hshot =>
    cases later with
    | nil => cases hstep
    | cons data later =>
      cases hstep
      have hstage := Stage.frame oneShot earlier later data _ _ hshot
        (written_concat oneShot earlier data).symm
      exact ⟨_, hc, hstage, rfl, id, rfl, rfl, rfl, .inl ⟨rfl, rfl⟩⟩
  | frame oneShot earlier later data received rest hshot h =>
    cases later with
    | nil => cases hstep
    | cons d later => cases hstep
  | image data later =>
    cases later with
    | nil => cases hstep
    | cons d later => cases hstep

/-- A byte is written. -/
theorem Stage.sent (h : Stage c) (hc : s.clients[i]? = some c) (hstep : s.step (.sent i) = some t) :
    ∃ c', Moves s t i c c' := by
  simp only [CameraStream.step, hc, Option.bind_some] at hstep
  cases h with
  | accepted oneShot => cases hstep
  | headers oneShot received rest h =>
    cases rest with
    | nil => cases hstep
    | cons b rest =>
      cases hstep
      rw [List.append_cons] at h
      exact ⟨_, hc, .headers oneShot (received ++ [b]) rest h, rfl, id, rfl, rfl, rfl,
        .inl ⟨rfl, rfl⟩⟩
  | noHeaders oneShot received h => cases hstep
  | idle oneShot earlier later hshot => cases hstep
  | frame oneShot earlier later data received rest hshot h =>
    cases rest with
    | nil => cases hstep
    | cons b rest =>
      cases hstep
      rw [List.append_cons] at h
      exact ⟨_, hc, .frame oneShot earlier later data (received ++ [b]) rest hshot h, rfl, id,
        rfl, rfl, rfl, .inl ⟨rfl, rfl⟩⟩
  | image data later => cases hstep

/-- A write throws while the headers are written. -/
theorem Stage.fails (h : Stage c) (hc : s.clients[i]? = some c) (hsteady : c.inFrame = false)
    (hstep : s.step (.fails i) = some t) : ∃ c', Moves s t i c c' := by
  simp only [CameraStream.step, hc, Option.bind_some] at hstep
  cases h with
  | accepted oneShot => cases hstep
  | headers oneShot received rest h =>
    cases hstep
    exact ⟨_, hc, .noHeaders oneShot received ⟨rest, h⟩, rfl, id, rfl, rfl, rfl,
      .inr (.inr rfl)⟩
  | noHeaders oneShot received h => cases hstep
  | idle oneShot earlier later hshot => cases hstep
  | frame oneShot earlier later data received rest hshot h => cases hsteady
  | image data later => cases hstep

/-- A message has run to its end. -/
theorem Stage.done (h : Stage c) (hc : s.clients[i]? = some c) (hstep : s.step (.done i) = some t) :
    ∃ c', Moves s t i c c' := by
  simp only [CameraStream.step, hc, Option.bind_some] at hstep
  cases h with
  | accepted oneShot => cases hstep
  | headers oneShot received rest h =>
    cases rest with
    | cons b rest => cases hstep
    | nil =>
      cases hstep
      have hstage := Stage.idle oneShot [] [] fun _ => rfl
      rw [written_nil, ← h, List.append_nil] at hstage
      exact ⟨_, hc, hstage, rfl, fun _ => rfl, rfl, rfl, rfl, .inr (.inl ⟨rfl, rfl, rfl, rfl⟩)⟩
  | noHeaders oneShot received h => cases hstep
  | idle oneShot earlier later hshot => cases hstep
  | frame oneShot earlier later data received rest hshot h =>
    cases rest with
    | cons b rest => cases hstep
    | nil =>
      rw [List.append_nil] at h
      cases oneShot with
      | true =>
        cases hstep
        have hnone := hshot rfl
        subst hnone
        rw [List.nil_append, written_true] at h
        subst h
        exact ⟨_, hc, .image data later, rfl, id, rfl, rfl, rfl, .inr (.inr rfl)⟩
      | false =>
        cases hstep
        have hstage := Stage.idle false (earlier ++ [data]) later fun hshot => by cases hshot
        rw [← h, List.append_assoc] at hstage
        exact ⟨_, hc, hstage, rfl, id, rfl, rfl, rfl, .inl ⟨rfl, rfl⟩⟩
  | image data later => cases hstep

/-! ## Every run -/

/-- What holds while no write of a frame fails: every client is at some stage, `handlerThreads`
has each open client whose headers are written once, and the frame that is delivered was not
posted yet to the clients that are left. -/
structure Orderly (s : CameraStream) : Prop where
  stage : ∀ (i : Nat) (c : Client), s.clients[i]? = some c → Stage c
  nodup : s.handlerThreads.Nodup
  listed : ∀ i ∈ s.handlerThreads,
    ∃ c, s.clients[i]? = some c ∧ c.headersWritten ∧ c.closed = false
  posted : ∀ (i : Nat) (c : Client), s.clients[i]? = some c → c.posted.Sublist s.delivered
  delivery : ∀ data rest, s.delivering = some (data, rest) → rest.Nodup ∧
    ∃ before, s.delivered = before ++ [data] ∧
      ∀ i ∈ rest, ∃ c, s.clients[i]? = some c ∧ c.headersWritten ∧ c.posted.Sublist before

/-- Without a client all is in order. -/
theorem orderly_init : init.Orderly where
  stage i c h := by cases h
  nodup := List.nodup_nil
  listed i h := by cases h
  posted i c h := by cases h
  delivery data rest h := by cases h

/-- Only the client that moves changes. -/
theorem Moves.lookup {c' : Client} (h : Moves s t i c c') (j : Nat) :
    t.clients[j]? = if i = j then some c' else s.clients[j]? := by
  have hlength : i < s.clients.length := (List.getElem?_eq_some_iff.mp h.client).1
  rw [h.clients, List.getElem?_set, if_pos hlength]

/-- A looper's step on one client keeps the others. -/
theorem Orderly.moves {c' : Client} (hs : s.Orderly) (h : Moves s t i c c') : t.Orderly where
  stage j d hd := by
    rw [h.lookup] at hd
    split at hd
    · cases hd
      exact h.stage
    · exact hs.stage j d hd
  nodup := by
    rcases h.threads with ⟨hsame, -⟩ | ⟨hadded, hunwritten, -, -⟩ | hremoved
    · rw [hsame]
      exact hs.nodup
    · rw [hadded]
      refine List.nodup_append.mpr ⟨hs.nodup, List.nodup_singleton i, ?_⟩
      rintro j hj _ hi rfl
      obtain ⟨d, hd, hwritten, -⟩ := hs.listed j hj
      rw [List.mem_singleton.mp hi, h.client] at hd
      cases hd
      rw [hunwritten] at hwritten
      cases hwritten
    · rw [hremoved]
      exact hs.nodup.erase i
  listed j hj := by
    rw [h.lookup]
    rcases h.threads with ⟨hsame, hclosed⟩ | ⟨hadded, -, hwritten, hopen⟩ | hremoved
    · rw [hsame] at hj
      obtain ⟨d, hd, hwritten, hopen⟩ := hs.listed j hj
      split
      · next hij =>
        rw [← hij, h.client] at hd
        cases hd
        exact ⟨c', rfl, h.written hwritten, hclosed.trans hopen⟩
      · exact ⟨d, hd, hwritten, hopen⟩
    · split
      · exact ⟨c', rfl, hwritten, hopen⟩
      · next hij =>
        rw [hadded, List.mem_append, List.mem_singleton] at hj
        exact hs.listed j (hj.resolve_right fun hji => hij hji.symm)
    · rw [hremoved, hs.nodup.mem_erase_iff] at hj
      rw [if_neg fun hij => hj.1 hij.symm]
      exact hs.listed j hj.2
  posted j d hd := by
    rw [h.delivered]
    rw [h.lookup] at hd
    split at hd
    · cases hd
      rw [h.posted]
      exact hs.posted i c h.client
    · exact hs.posted j d hd
  delivery data rest hrest := by
    rw [h.delivering] at hrest
    obtain ⟨hnodup, before, hbefore, hleft⟩ := hs.delivery data rest hrest
    refine ⟨hnodup, before, h.delivered.trans hbefore, fun j hj => ?_⟩
    obtain ⟨d, hd, hwritten, hposted⟩ := hleft j hj
    rw [h.lookup]
    split
    · next hij =>
      rw [← hij, h.client] at hd
      cases hd
      exact ⟨c', rfl, h.written hwritten, h.posted ▸ hposted⟩
    · exact ⟨d, hd, hwritten, hposted⟩

/-- A new client comes after the others. -/
theorem Orderly.connect (hs : s.Orderly) (oneShot : Bool) :
    Orderly { s with clients := s.clients ++ [.connected oneShot] } := by
  have hkept : ∀ j d, s.clients[j]? = some d →
      (s.clients ++ [Client.connected oneShot])[j]? = some d := fun j d hd =>
    (List.getElem?_append_left (List.getElem?_eq_some_iff.mp hd).1).trans hd
  have hcases : ∀ (j : Nat) (d : Client), (s.clients ++ [Client.connected oneShot])[j]? = some d →
      s.clients[j]? = some d ∨ d = .connected oneShot := by
    intro j d hd
    rcases Nat.lt_or_ge j s.clients.length with hlt | hge
    · rw [List.getElem?_append_left hlt] at hd
      exact .inl hd
    · rw [List.getElem?_append_right hge] at hd
      exact .inr (List.mem_singleton.mp (List.mem_of_getElem? hd))
  constructor
  case stage =>
    intro j d hd
    rcases hcases j d hd with hold | rfl
    · exact hs.stage j d hold
    · exact .accepted oneShot
  case nodup => exact hs.nodup
  case listed =>
    intro j hj
    obtain ⟨d, hd, hlisted⟩ := hs.listed j hj
    exact ⟨d, hkept j d hd, hlisted⟩
  case posted =>
    intro j d hd
    rcases hcases j d hd with hold | rfl
    · exact hs.posted j d hold
    · exact List.nil_sublist _
  case delivery =>
    intro data rest hrest
    obtain ⟨hnodup, before, hbefore, hleft⟩ := hs.delivery data rest hrest
    refine ⟨hnodup, before, hbefore, fun j hj => ?_⟩
    obtain ⟨d, hd, hposted⟩ := hleft j hj
    exact ⟨d, hkept j d hd, hposted⟩

/-- A delivery begins with all of `handlerThreads` left. -/
theorem Orderly.deliverFrame (hs : s.Orderly) (data : List UInt8) :
    Orderly { s with
      delivering := some (data, s.handlerThreads)
      delivered := s.delivered ++ [data] } where
  stage := hs.stage
  nodup := hs.nodup
  listed := hs.listed
  posted j d hd := (hs.posted j d hd).trans (List.sublist_append_left _ _)
  delivery data' rest hrest := by
    cases hrest
    refine ⟨hs.nodup, s.delivered, rfl, fun j hj => ?_⟩
    obtain ⟨d, hd, hwritten, -⟩ := hs.listed j hj
    exact ⟨d, hd, hwritten, hs.posted j d hd⟩

/-- The frame is posted to the next client. -/
theorem Orderly.post {data : List UInt8} {rest : List Nat} (hs : s.Orderly)
    (hdelivering : s.delivering = some (data, i :: rest)) :
    Orderly { s with
      clients := s.clients.modify i (·.post data)
      delivering := some (data, rest) } := by
  obtain ⟨hnodup, before, hbefore, hleft⟩ := hs.delivery data (i :: rest) hdelivering
  obtain ⟨hfresh, hnodup⟩ := List.nodup_cons.mp hnodup
  obtain ⟨c, hc, hwritten, hposted⟩ := hleft i List.mem_cons_self
  have hlookup : ∀ j, (s.clients.modify i (·.post data))[j]? =
      if i = j then some (c.post data) else s.clients[j]? := by
    intro j
    rw [List.getElem?_modify]
    split
    · next hij =>
      rw [← hij, hc]
      rfl
    · exact id_map _
  constructor
  case stage =>
    intro j d hd
    rw [hlookup] at hd
    split at hd
    · cases hd
      exact (hs.stage i c hc).post hwritten data
    · exact hs.stage j d hd
  case nodup => exact hs.nodup
  case listed =>
    intro j hj
    obtain ⟨d, hd, hlisted⟩ := hs.listed j hj
    rw [hlookup]
    split
    · next hij =>
      rw [← hij, hc] at hd
      cases hd
      exact ⟨c.post data, rfl, by simpa using hlisted⟩
    · exact ⟨d, hd, hlisted⟩
  case posted =>
    intro j d hd
    rw [hlookup] at hd
    split at hd
    · cases hd
      dsimp only
      rw [hbefore]
      exact (c.post_posted_sublist data).trans (hposted.append_right _)
    · exact hs.posted j d hd
  case delivery =>
    intro data' rest' hrest
    cases hrest
    refine ⟨hnodup, before, hbefore, fun j hj => ?_⟩
    have hij : i ≠ j := fun hij => hfresh (hij ▸ hj)
    obtain ⟨d, hd, hkept⟩ := hleft j (List.mem_cons_of_mem i hj)
    rw [hlookup, if_neg hij]
    exact ⟨d, hd, hkept⟩

/-- **A step in which no write of a frame fails** keeps the order. -/
theorem Orderly.step (hs : s.Orderly) (hsteady : s.Steady a) (hstep : s.step a = some t) :
    t.Orderly := by
  -- a looper's action is about a client that exists
  have hclient : ∀ {i : Nat} {f : Client → Option CameraStream},
      (s.clients[i]?).bind f = some t → ∃ c, s.clients[i]? = some c := by
    intro i f hf
    obtain ⟨c, hc, -⟩ := Option.bind_eq_some_iff.mp hf
    exact ⟨c, hc⟩
  cases a with
  | connect line =>
    cases hstep
    exact hs.connect _
  | deliverFrame data =>
    simp only [CameraStream.step] at hstep
    split at hstep
    · cases hstep
      exact hs.deliverFrame data
    · cases hstep
  | post =>
    simp only [CameraStream.step] at hstep
    split at hstep
    · cases hstep
    · cases hstep
      exact ⟨hs.stage, hs.nodup, hs.listed, hs.posted, fun _ _ h => by cases h⟩
    · next data i rest hdelivering =>
      cases hstep
      exact hs.post hdelivering
  | next i =>
    obtain ⟨c, hc⟩ := hclient hstep
    obtain ⟨c', hmoves⟩ := (hs.stage i c hc).next hc hstep
    exact hs.moves hmoves
  | sent i =>
    obtain ⟨c, hc⟩ := hclient hstep
    obtain ⟨c', hmoves⟩ := (hs.stage i c hc).sent hc hstep
    exact hs.moves hmoves
  | fails i =>
    obtain ⟨c, hc⟩ := hclient hstep
    have hframe : c.inFrame = false := by
      have hany : (s.clients[i]?).any Client.inFrame = false := hsteady
      rwa [hc] at hany
    obtain ⟨c', hmoves⟩ := (hs.stage i c hc).fails hc hframe hstep
    exact hs.moves hmoves
  | done i =>
    obtain ⟨c, hc⟩ := hclient hstep
    obtain ⟨c', hmoves⟩ := (hs.stage i c hc).done hc hstep
    exact hs.moves hmoves

/-! ## A looper by itself -/

/-- The stream with this in the place of a client. -/
def put (s : CameraStream) (i : Nat) (c : Client) : CameraStream :=
  { s with clients := s.clients.set i c }

/-- The changed client is found in its place. -/
theorem put_lookup (hc : s.clients[i]? = some c) (c' : Client) :
    (s.put i c').clients[i]? = some c' :=
  List.getElem?_set_self (List.getElem?_eq_some_iff.mp hc).1

/-- The next message of an open client's queue is taken. -/
theorem step_next {m : Message} {queue : List Message} (hc : s.clients[i]? = some c)
    (hqueue : c.queue = m :: queue) (hclosed : c.closed = false) (hrunning : c.running = none) :
    s.step (.next i) = some (s.put i
      { c with queue := queue, running := some (m, (m.writes c.oneShot).flatten) }) := by
  simp [CameraStream.step, put, hc, hqueue, hclosed, hrunning]

/-- A byte of the message is sent. -/
theorem step_sent {m : Message} {b : UInt8} {rest : List UInt8} (hc : s.clients[i]? = some c)
    (hrunning : c.running = some (m, b :: rest)) (hfailed : c.failed = false) :
    s.step (.sent i) = some (s.put i
      { c with running := some (m, rest), received := c.received ++ [b] }) := by
  simp [CameraStream.step, put, hc, hrunning, hfailed]

/-- A looper writes what is left of its message. -/
theorem run_sent {m : Message} {rest : List UInt8} (hc : s.clients[i]? = some c)
    (hrunning : c.running = some (m, rest)) (hfailed : c.failed = false) :
    ∃ t, run CameraStream.step s (List.replicate rest.length (.sent i)) = some t ∧
      t.clients[i]? = some { c with running := some (m, []), received := c.received ++ rest } := by
  induction rest generalizing s c with
  | nil =>
    refine ⟨s, rfl, hc.trans ?_⟩
    rw [← hrunning, List.append_nil]
  | cons b rest ih =>
    have hc' := put_lookup hc
      { c with running := some (m, rest), received := c.received ++ [b] }
    obtain ⟨t, ht, hall⟩ := ih (c := { c with
      running := some (m, rest), received := c.received ++ [b] }) hc' rfl hfailed
    refine ⟨t, run_cons_eq_some.mpr ⟨_, step_sent hc hrunning hfailed, ht⟩, hall.trans ?_⟩
    rw [List.append_assoc, List.singleton_append]

/-- A snapshot client that is written an image finishes. -/
theorem finishes_frame {data received rest : List UInt8} {later : List (List UInt8)}
    (hc : s.clients[i]? = some ⟨true, later.map .frame, some (.frame data, rest), false, received,
      data :: later, true, false, false⟩)
    (hrest : received ++ rest = HEADERS ++ data) (hdata : data ∈ s.delivered) : s.Finishes i := by
  obtain ⟨s', hs', hc'⟩ := run_sent hc rfl rfl
  dsimp only at hc'
  rw [hrest] at hc'
  have hlength : i < s'.clients.length := (List.getElem?_eq_some_iff.mp hc').1
  have hdone : s'.step (.done i) = some (s'.quit i ⟨true, later.map .frame, none, false,
      HEADERS ++ data, data :: later, true, false, false⟩) := by
    unfold CameraStream.step
    dsimp only
    rw [hc']
    rfl
  refine ⟨List.replicate rest.length (.sent i) ++ [.done i],
    s'.quit i ⟨true, later.map .frame, none, false, HEADERS ++ data, data :: later, true, false,
      false⟩,
    ⟨true, later.map .frame, none, true, HEADERS ++ data, data :: later, true, false, false⟩,
    ?_, ?_, List.getElem?_set_self hlength, rfl, data, hdata, rfl⟩
  · intro a ha
    rcases List.mem_append.mp ha with hsent | hlast
    · exact .inr (.inl (List.eq_of_mem_replicate hsent))
    · exact .inr (.inr (List.mem_singleton.mp hlast))
  · exact run_append_eq_some.mpr ⟨s', hs', run_cons_eq_some.mpr ⟨_, hdone, rfl⟩⟩

/-- **A snapshot client to which a frame was posted** can finish. -/
theorem Stage.finishes (h : Stage c) (hc : s.clients[i]? = some c) (hshot : c.oneShot = true)
    (hposted : c.posted ≠ []) (hdelivered : c.posted ⊆ s.delivered) : s.Finishes i := by
  cases h with
  | accepted oneShot => exact absurd rfl hposted
  | headers oneShot received rest h => exact absurd rfl hposted
  | noHeaders oneShot received h => exact absurd rfl hposted
  | idle oneShot earlier later hearlier =>
    cases hshot
    have hnone := hearlier rfl
    subst hnone
    cases later with
    | nil => exact absurd rfl hposted
    | cons data later =>
      have hnext := step_next hc rfl rfl rfl
      have hrest : written true [] ++ ((Message.frame data).writes true).flatten =
          HEADERS ++ data := (written_concat true [] data).symm.trans (written_true data)
      have hdata : data ∈ s.delivered := hdelivered List.mem_cons_self
      obtain ⟨as, t, c', hown, hrun, ht⟩ :=
        finishes_frame (put_lookup hc _) hrest hdata
      refine ⟨.next i :: as, t, c', ?_, run_cons_eq_some.mpr ⟨_, hnext, hrun⟩, ht⟩
      intro a ha
      rcases List.mem_cons.mp ha with hfirst | hlater
      · exact .inl hfirst
      · exact hown a hlater
  | frame oneShot earlier later data received rest hearlier h =>
    cases hshot
    have hnone := hearlier rfl
    subst hnone
    rw [List.nil_append, written_true] at h
    exact finishes_frame hc h (hdelivered List.mem_cons_self)
  | image data later =>
    exact ⟨[], s, _, fun a ha => absurd ha List.not_mem_nil, rfl, hc, rfl, data,
      hdelivered List.mem_cons_self, rfl⟩

/-- A picture among some frames is among more. -/
theorem Client.Snaps.mono {frames delivered : List (List UInt8)} (h : c.Snaps frames)
    (hsub : frames ⊆ delivered) : c.Snaps delivered := by
  obtain ⟨hreceived, hclosed, hidle⟩ := h
  refine ⟨hreceived.imp_right ?_, fun hc hf => ?_, hidle⟩
  · rintro ⟨data, hdata, hprefix⟩
    exact ⟨data, hsub hdata, hprefix⟩
  · obtain ⟨data, hdata, hall⟩ := hclosed hc hf
    exact ⟨data, hsub hdata, hall⟩

/-- **What is in order is framed.** -/
theorem Orderly.framed (hs : s.Orderly) : s.Framed := by
  intro i c hc
  have hstage := hs.stage i c hc
  have hposted := hs.posted i c hc
  refine ⟨fun hshot => ?_, fun hshot => ⟨?_, fun hsome => ?_⟩, hstage.running_closed,
    fun hfailed => ?_⟩
  · obtain ⟨frames, hframes, hprefix⟩ := hstage.streams hshot
    exact ⟨frames, hframes.trans hposted, hprefix⟩
  · exact (hstage.snaps hshot).mono hposted.subset
  · exact hstage.finishes hc hshot hsome hposted.subset
  · obtain ⟨hclosed, hretried⟩ := hstage.failed hfailed
    refine ⟨hclosed, hretried, fun hi => ?_⟩
    obtain ⟨d, hd, -, hopen⟩ := hs.listed i hi
    rw [hc] at hd
    cases hd
    rw [hclosed] at hopen
    cases hopen

/-- **The framing of the camera stream**: in every run in which no write of a frame fails while
its socket is open on this side, what a streaming client has received is a prefix of a
multipart stream, a snapshot client gets the headers and one whole frame and is closed, which
its looper reaches by itself once a frame was posted, and a client whose write has failed is
closed, not written to and not in `handlerThreads`.

SOURCE: CameraService.kt:267-297,336-376 -/
theorem stream_framed {as : List Action}
    (hrun : run (restrict step Steady) init as = some s) : s.Framed := by
  have hs : s.Orderly :=
    run_restrict_invariant (fun s a t h hsteady hstep => h.step hsteady hstep) orderly_init hrun
  exact hs.framed

/-- The steps of a looper that takes a message and writes so many bytes of it. -/
def message (i n : Nat) : List Action := .next i :: List.replicate n (.sent i)

/-- The headers of a client, all of them. -/
def greeting (i : Nat) : List Action := message i HEADERS.length ++ [.done i]

/-- A streaming and a snapshot client, the first of which waits for the second frame, and a
third whose headers cannot be written. -/
def twoFrames : List Action :=
  [.connect none] ++ greeting 0 ++ [.deliverFrame [1, 2], .post,
    .connect (some "GET /snapshot HTTP/1.1".toList)] ++ greeting 1 ++ [.post] ++
    message 0 (part [1, 2]).length ++ [.done 0, .connect none, .next 2, .sent 2, .fails 2,
    .deliverFrame [3], .post, .post, .post] ++ message 1 1 ++ [.done 1] ++ message 0 20

/-- In this run the one has a prefix of two parts, the other has one frame. -/
theorem stream_framed_twoFrames :
    ∃ s, run (restrict step Steady) init twoFrames = some s ∧
      s.clients.map Client.received =
        [(multipart [[1, 2], [3]]).take (multipart [[1, 2]]).length ++ (part [3]).take 20,
          HEADERS ++ [3], HEADERS.take 1] ∧
      s.handlerThreads = [0] ∧ s.Framed := by
  have hrun : (run (restrict step Steady) init twoFrames).any (fun s =>
      s.clients.map Client.received =
        [(multipart [[1, 2], [3]]).take (multipart [[1, 2]]).length ++ (part [3]).take 20,
          HEADERS ++ [3], HEADERS.take 1] ∧ s.handlerThreads = [0]) = true := by
    decide +kernel
  obtain ⟨s, hs, hread⟩ := (Option.any_eq_true _ _).mp hrun
  obtain ⟨hreceived, hthreads⟩ := of_decide_eq_true hread
  exact ⟨s, hs, hreceived, hthreads, stream_framed hs⟩

/-- The connection of a streaming client breaks in its second frame. -/
def brokenPipe : List Action :=
  [.connect none] ++ greeting 0 ++ [.deliverFrame [1], .post, .post] ++ message 0 3 ++
    [.fails 0, .deliverFrame [2], .post, .post, .next 0, .fails 0]

/-- **Not every run is framed**: the client whose write failed is still in `handlerThreads` and
is written to again. -/
theorem stream_not_framed : ¬∀ as s, run step init as = some s → s.Framed := by
  intro h
  have hrun : (run step init brokenPipe).any (fun s =>
      0 ∈ s.handlerThreads ∧ s.clients.map Client.failed = [true] ∧
        s.clients.map Client.retried = [true]) = true := by decide +kernel
  obtain ⟨s, hs, hread⟩ := (Option.any_eq_true _ _).mp hrun
  obtain ⟨hlisted, hfailed, -⟩ := of_decide_eq_true hread
  obtain ⟨c, hclients, hc⟩ := List.map_eq_singleton_iff.mp hfailed
  have hlookup : s.clients[0]? = some c := by rw [hclients]; rfl
  exact ((h brokenPipe s hs 0 c hlookup).2.2.2 hc).2.2 hlisted

end Cream.Model.CameraStream
