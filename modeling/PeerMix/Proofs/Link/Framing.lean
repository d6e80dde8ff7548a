import PeerMix.Link.Frame
import PeerMix.Proofs.Text.Utf8
import PeerMix.Proofs.Wire.Lengths
import PeerMix.Proofs.Wire.RoundTrip

/-!
# Frames survive their way

What a reader takes from a link depends only on the octets that arrive together, not
on the pieces in which they come.  A line of ASCII text within the limit is cut out
whole, so messages that are sent one after the other are received one after the
other, and what follows them is left to be read.
-/

namespace PeerMix

open Wire

/-!
## Octets on their way
-/

namespace Arrival

def content : Arrival -> Bytes
  | .octets bs => bs
  | _ => []

/-- What keeps nobody from reading on who waits so long: octets, and where all wait
without limit also pauses and wishes to end the session. -/
def Flows (limits : List (Option Nat)) : Arrival -> Prop
  | .octets _ => True
  | .pause _ => forall limit, limit ∈ limits -> limit = none
  | .cancel => forall limit, limit ∈ limits -> limit = none
  | .silence => False
  | .failure _ => False

end Arrival

namespace Link

def contents (arrivals : List Arrival) : Bytes :=
  arrivals.flatMap Arrival.content

/-- The octets that are still to be read. -/
def unread (link : Link) : Bytes :=
  contents link.arrivals

/-- Everything that arrives flows. -/
def Flows (limits : List (Option Nat)) (link : Link) : Prop :=
  forall a, a ∈ link.arrivals -> a.Flows limits

/-!
## Cutting lines
-/

namespace Cut

def ending : Cut -> Ending
  | .line done _ => .line done.reverse
  | .full done _ => .full done.reverse
  | .open done _ => .ended done.reverse

def rest : Cut -> Bytes
  | .line _ rest => rest
  | .full _ rest => rest
  | .open _ _ => []

end Cut

section Cutting

variable {left : Nat} {done bs rest : Bytes}

/-- Octets that come later are cut with the room that the earlier ones have left. -/
theorem cut_append (left : Nat) (done bs more : Bytes) :
    cut left done (bs ++ more) =
      match cut left done bs with
      | .line done rest => .line done (rest ++ more)
      | .full done rest => .full done (rest ++ more)
      | .open done left => cut left done more := by
  induction bs generalizing left done with
  | nil =>
      cases left with
      | zero => cases more <;> rfl
      | succ left => rfl
  | cons b bs ih =>
      cases left with
      | zero => rfl
      | succ left =>
          rw [List.cons_append, cut, cut]
          by_cases hb : b = newline
          · rw [if_pos hb, if_pos hb]
          · rw [if_neg hb, if_neg hb]
            exact ih left (b :: done)

/-- An open line still has room. -/
theorem pos_of_cut_eq_open {more : Bytes} {room : Nat} (h : cut left done bs = .open more room) :
    0 < room := by
  induction bs generalizing left done with
  | nil =>
      cases left with
      | zero => cases h
      | succ left =>
          cases h
          exact Nat.succ_pos left
  | cons b bs ih =>
      cases left with
      | zero => cases h
      | succ left =>
          rw [cut] at h
          by_cases hb : b = newline
          · rw [if_pos hb] at h
            cases h
          · rw [if_neg hb] at h
            exact ih h

theorem cut_open (hline : newline ∉ bs) (hroom : bs.length < left) :
    cut left done bs = .open (bs.reverse ++ done) (left - bs.length) := by
  induction bs generalizing left done with
  | nil =>
      cases left with
      | zero => exact absurd hroom (Nat.not_lt_zero 0)
      | succ left => rfl
  | cons b bs ih =>
      cases left with
      | zero => exact absurd hroom (Nat.not_lt_zero _)
      | succ left =>
          have hb : b ≠ newline := fun hb => hline (hb ▸ List.mem_cons_self)
          rw [cut, if_neg hb, ih (fun h => hline (List.mem_cons_of_mem b h))
            (Nat.lt_of_succ_lt_succ hroom), List.reverse_cons, List.append_assoc, List.length_cons,
            Nat.succ_sub_succ]
          rfl

theorem cut_line (hline : newline ∉ bs) (hroom : bs.length < left) (rest : Bytes) :
    cut left done (bs ++ newline :: rest) = .line (newline :: (bs.reverse ++ done)) rest := by
  rw [cut_append, cut_open hline hroom]
  dsimp only
  cases hleft : left - bs.length with
  | zero => omega
  | succ room => rw [cut, if_pos rfl]

theorem cut_full (hline : newline ∉ bs) (rest : Bytes) :
    cut bs.length done (bs ++ rest) = .full (bs.reverse ++ done) rest := by
  induction bs generalizing done with
  | nil => cases rest <;> rfl
  | cons b bs ih =>
      have hb : b ≠ newline := fun hb => hline (hb ▸ List.mem_cons_self)
      rw [List.length_cons, List.cons_append, cut, if_neg hb,
        ih fun h => hline (List.mem_cons_of_mem b h), List.reverse_cons, List.append_assoc]
      rfl

end Cutting

/-!
## Reading lines
-/

section Reading

variable {limit : Option Nat} {limits : List (Option Nat)} {link : Link}

theorem contents_putBack (rest : Bytes) (arrivals : List Arrival) :
    contents (putBack rest arrivals) = rest ++ contents arrivals := by
  cases rest with
  | nil => rfl
  | cons b bs => rfl

theorem flows_putBack {rest : Bytes} {arrivals : List Arrival}
    (h : forall a, a ∈ arrivals -> a.Flows limits) :
    forall a, a ∈ putBack rest arrivals -> a.Flows limits := by
  intro a ha
  cases rest with
  | nil => exact h a ha
  | cons b bs =>
      rcases List.mem_cons.mp ha with rfl | ha
      · exact trivial
      · exact h a ha

/-- Who waits without limit and heeds no wish outlasts every pause. -/
theorem wait_of_patient {p : Patience} (hdeadline : p.deadline = none)
    (hcancel : p.heedsCancel = false) (cancelled : Bool) (clock until' : Nat) :
    p.wait cancelled clock (some until') = (none, max clock until') := by
  simp [Patience.wait, hdeadline, hcancel]

/-- Reading goes by the octets alone, in whatever pieces they arrive. -/
theorem readFrom_flows {p : Patience} (hcancel : p.heedsCancel = false)
    (hdeadline : limit = none -> p.deadline = none) (hlimit : limit ∈ limits)
    {arrivals : List Arrival} (hflows : forall a, a ∈ arrivals -> a.Flows limits) {left : Nat}
    (hleft : 0 < left) (done : Bytes) (link : Link) :
    exists after, readFrom p left done link arrivals =
        ((cut left done (contents arrivals)).ending, after) ∧
      after.unread = (cut left done (contents arrivals)).rest ∧ after.Flows limits := by
  induction arrivals generalizing left done link with
  | nil =>
      cases left with
      | zero => exact absurd hleft (Nat.lt_irrefl 0)
      | succ left => exact ⟨_, rfl, rfl, nofun⟩
  | cons a more ih =>
      have hmore : forall a, a ∈ more -> a.Flows limits :=
        fun a ha => hflows a (List.mem_cons_of_mem _ ha)
      have hfirst : a.Flows limits := hflows a List.mem_cons_self
      cases a with
      | octets bs =>
          have hcontents : contents (.octets bs :: more) = bs ++ contents more := rfl
          rw [hcontents, cut_append, readFrom]
          cases hcut : cut left done bs with
          | line done rest =>
              exact ⟨_, rfl, contents_putBack rest more, flows_putBack hmore⟩
          | full done rest =>
              exact ⟨_, rfl, contents_putBack rest more, flows_putBack hmore⟩
          | «open» done room => exact ih hmore (pos_of_cut_eq_open hcut) done link
      | pause duration =>
          have hpatient := wait_of_patient (hdeadline (hfirst limit hlimit)) hcancel
          have hcontents : contents (.pause duration :: more) = contents more := rfl
          rw [hcontents, readFrom]
          split
          · exact ih hmore hleft done _
          · rw [hpatient]
            exact ih hmore hleft done _
      | cancel =>
          have hcontents : contents (.cancel :: more) = contents more := rfl
          rw [hcontents, readFrom]
          exact ih hmore hleft done _
      | silence => exact absurd hfirst id
      | failure => exact absurd hfirst id

theorem receive_flows (kind : Kind) (hflows : link.Flows limits) (hlimit : limit ∈ limits) :
    exists after, link.receive kind limit =
        (deliverMessage kind (readEnding kind.codec (limit.getD 0)
          (cut maxLine [] link.unread).ending), after) ∧
      after.unread = (cut maxLine [] link.unread).rest ∧ after.Flows limits := by
  have hdeadline : limit = none -> link.deadline limit = none := by
    intro hnone
    rw [hnone]
    rfl
  rcases readFrom_flows (p := ⟨link.deadline limit, false⟩) rfl hdeadline hlimit hflows
    (by decide : 0 < maxLine) [] link with ⟨after, hread, hrest, hafter⟩
  refine ⟨after, ?_, hrest, hafter⟩
  rw [receive, receiveFrame, readLine, hread]
  rfl

end Reading

/-!
## Frames
-/

/-- The text of every message is that of an object. -/
theorem exists_writeMessage_eq (kind : Kind) (m : kind.Message) :
    exists inner, writeMessage kind m = inner ++ ['\x7d'] := by
  have hobject : exists members, kind.codec.write m = .object members true := by
    cases kind <;> exact ⟨_, rfl⟩
  rcases hobject with ⟨members, hmembers⟩
  refine ⟨'\x7b' :: Json.renderMembers members, ?_⟩
  rw [writeMessage, Codec.encode, hmembers, Json.render]

/-- The end of the line is all that is trimmed off the text of a message. -/
theorem trimEnd_writeMessage (kind : Kind) (m : kind.Message) :
    Text.trimEnd (writeMessage kind m ++ ['\n']) = writeMessage kind m := by
  rcases exists_writeMessage_eq kind m with ⟨inner, hinner⟩
  have hnewline : Text.isBlank '\n' = true := rfl
  have hbrace : Text.isBlank '\x7d' = false := rfl
  rw [hinner, Text.trimEnd, List.reverse_append, List.reverse_singleton, List.singleton_append,
    List.dropWhile_cons_of_pos hnewline, List.reverse_append, List.reverse_singleton,
    List.singleton_append, List.dropWhile_cons_of_neg (by rw [hbrace]; exact Bool.false_ne_true),
    List.reverse_cons, List.reverse_reverse]

theorem utf8EncodeChar_of_isAscii {c : Char} (h : Json.IsAscii c) :
    String.utf8EncodeChar c = [UInt8.ofNat c.toNat] :=
  if_pos (Nat.le_of_lt_succ h)

/-- The text of a message holds no end of a line. -/
theorem newline_not_mem_writeMessage (kind : Kind) (m : kind.Message) :
    newline ∉ Utf8.encode (writeMessage kind m) := by
  intro hmem
  rcases List.mem_flatMap.mp hmem with ⟨c, hc, hoctet⟩
  rcases (kind.lawful_codec.writable m).fitsLine_render c hc with ⟨hascii, hne⟩
  have hcode : c.toNat < 128 := hascii
  rw [utf8EncodeChar_of_isAscii hascii] at hoctet
  have hvalue := congrArg UInt8.toNat (List.mem_singleton.mp hoctet)
  rw [UInt8.toNat_ofNat'] at hvalue
  have hnewline : c.toNat = 10 := by
    have hten : 10 = c.toNat % 256 := hvalue
    omega
  apply hne
  rw [← Char.ofNat_toNat c, hnewline]

theorem length_encode_of_isAsciiText {cs : List Char} (h : Json.IsAsciiText cs) :
    (Utf8.encode cs).length = cs.length := by
  induction cs with
  | nil => rfl
  | cons c cs ih =>
      have hcons : Utf8.encode (c :: cs) = String.utf8EncodeChar c ++ Utf8.encode cs := rfl
      rw [hcons, utf8EncodeChar_of_isAscii (h c List.mem_cons_self), List.singleton_append,
        List.length_cons, ih fun d hd => h d (List.mem_cons_of_mem c hd), List.length_cons]

/-- A frame has an octet for every character of the message and one for its end. -/
theorem length_frame (kind : Kind) (m : kind.Message) :
    (frame kind m).length = kind.codec.width m + 1 := by
  have hascii : Json.IsAsciiText (writeMessage kind m) := fun c hc =>
    ((kind.lawful_codec.writable m).fitsLine_render c hc).left
  rw [frame, List.length_append, List.length_singleton, length_encode_of_isAsciiText hascii]
  rfl

theorem length_frame_le {kind : Kind} {m : kind.Message} {n : Nat}
    (hwidth : kind.codec.width m ≤ n) (hn : n < maxLine) : (frame kind m).length ≤ maxLine := by
  rw [length_frame]
  exact Nat.lt_of_le_of_lt hwidth hn

theorem readEnding_frame (kind : Kind) (m : kind.Message) (limit : Nat) :
    readEnding kind.codec limit (.line (frame kind m)) = .ok m := by
  have hoctets : frame kind m = Utf8.encode (writeMessage kind m ++ ['\n']) := by
    rw [frame, Utf8.encode, Utf8.encode, List.flatMap_append]
    rfl
  have hmessage : readMessage kind.codec (writeMessage kind m ++ ['\n']) = .ok m := by
    rw [readMessage, trimEnd_writeMessage, writeMessage, kind.lawful_codec.decode_encode]
    rfl
  rw [readEnding, hoctets, Utf8.decode_encode]
  exact hmessage

section Frames

variable {limit : Option Nat} {limits : List (Option Nat)} {link : Link} {rest : Bytes}

theorem cut_frame (kind : Kind) (m : kind.Message) (hfits : (frame kind m).length ≤ maxLine)
    (rest : Bytes) :
    cut maxLine [] (frame kind m ++ rest) = .line (frame kind m).reverse rest := by
  have hroom : (Utf8.encode (writeMessage kind m)).length < maxLine := by
    rw [frame, List.length_append] at hfits
    exact hfits
  rw [frame, List.append_assoc, List.singleton_append,
    cut_line (newline_not_mem_writeMessage kind m) hroom, List.append_nil, List.reverse_append]
  rfl

/-- A frame within the limit is received whole, and what follows it is left. -/
theorem receive_frame {kind : Kind} {m : kind.Message} (hcode : kind.serverError? m = none)
    (hfits : (frame kind m).length ≤ maxLine) (hunread : link.unread = frame kind m ++ rest)
    (hflows : link.Flows limits) (hlimit : limit ∈ limits) :
    exists after, link.receive kind limit = (.ok m, after) ∧ after.unread = rest ∧
      after.Flows limits := by
  rcases receive_flows kind hflows hlimit with ⟨after, hreceive, hrest, hafter⟩
  rw [hunread, cut_frame kind m hfits] at hreceive hrest
  refine ⟨after, ?_, hrest, hafter⟩
  rw [hreceive, Cut.ending, List.reverse_reverse, readEnding_frame, deliverMessage, hcode]

/-- Octets that end inside a line end the connection. -/
theorem receive_open (kind : Kind) {cs : List Char} (hunread : link.unread = Utf8.encode cs)
    (hline : newline ∉ link.unread) (hroom : link.unread.length < maxLine)
    (hflows : link.Flows limits) (hlimit : limit ∈ limits) :
    (link.receive kind limit).1 = .error (.receive kind .closed) := by
  rcases receive_flows kind hflows hlimit with ⟨after, hreceive, _, _⟩
  rw [hreceive, cut_open hline hroom, Cut.ending, List.append_nil, List.reverse_reverse, hunread,
    readEnding, Utf8.decode_encode]
  rfl

/-- A line that goes on beyond the limit is too large, and reading stops there. -/
theorem receive_full (kind : Kind) {cs : List Char} {bs : Bytes} (hbs : bs = Utf8.encode cs)
    (hline : newline ∉ bs) (hlength : bs.length = maxLine) (hunread : link.unread = bs ++ rest)
    (hflows : link.Flows limits) (hlimit : limit ∈ limits) :
    exists after, link.receive kind limit = (.error (.receive kind .tooLarge), after) ∧
      after.unread = rest := by
  rcases receive_flows kind hflows hlimit with ⟨after, hreceive, hrest, _⟩
  rw [hunread, ← hlength, cut_full hline, List.append_nil] at hreceive hrest
  refine ⟨after, ?_, hrest⟩
  rw [hreceive, Cut.ending, List.reverse_reverse, hbs, readEnding, Utf8.decode_encode]
  rfl

end Frames

/-!
## Many frames
-/

/-- A message on its way to somebody who waits so long for it. -/
structure Delivery where
  kind : Kind
  message : kind.Message
  limit : Option Nat

namespace Delivery

def frame (d : Delivery) : Bytes :=
  Link.frame d.kind d.message

/-- What its receiver asks for. -/
def request (d : Delivery) : Kind × Option Nat :=
  (d.kind, d.limit)

/-- What its receiver is to get. -/
def received (d : Delivery) : Sigma fun kind : Kind => Except TransportError kind.Message :=
  ⟨d.kind, .ok d.message⟩

/-- It can be received: its kind carries an error code, which is zero, and its frame is
within the limit. -/
structure Receivable (d : Delivery) : Prop where
  code : d.kind.code? d.message = some 0
  fits : d.frame.length ≤ maxLine

theorem Receivable.serverError {d : Delivery} (h : d.Receivable) :
    d.kind.serverError? d.message = none := by
  rw [Kind.serverError?, h.code]
  rfl

end Delivery

/-- Receives one message after the other. -/
def receiveEach : (requests : List (Kind × Option Nat)) -> (link : Link) ->
    List (Sigma fun kind : Kind => Except TransportError kind.Message) × Link
  | [], link => ([], link)
  | (kind, limit) :: requests, link =>
      let (received, link) := link.receive kind limit
      let (others, link) := receiveEach requests link
      (⟨kind, received⟩ :: others, link)

theorem receiveEach_frames {deliveries : List Delivery}
    (hdeliveries : forall d, d ∈ deliveries -> d.Receivable) {limits : List (Option Nat)}
    (hlimits : forall d, d ∈ deliveries -> d.limit ∈ limits) {link : Link} {rest : Bytes}
    (hunread : link.unread = deliveries.flatMap Delivery.frame ++ rest)
    (hflows : link.Flows limits) :
    exists after, link.receiveEach (deliveries.map Delivery.request) =
        (deliveries.map Delivery.received, after) ∧ after.unread = rest := by
  induction deliveries generalizing link with
  | nil => exact ⟨link, rfl, hunread⟩
  | cons d deliveries ih =>
      have hd := hdeliveries d List.mem_cons_self
      rw [List.flatMap_cons, List.append_assoc] at hunread
      rcases receive_frame hd.serverError hd.fits hunread hflows (hlimits d List.mem_cons_self) with
        ⟨between, hreceive, hbetween, hflows⟩
      rcases ih (fun other hother => hdeliveries other (List.mem_cons_of_mem d hother))
        (fun other hother => hlimits other (List.mem_cons_of_mem d hother)) hbetween hflows with
        ⟨after, hothers, hafter⟩
      refine ⟨after, ?_, hafter⟩
      rw [List.map_cons, Delivery.request, receiveEach, hreceive, List.map_cons]
      dsimp only
      rw [hothers]
      rfl

/-- What is sent takes as many octets of the link as the frame has. -/
theorem sendFrame_of_fits (kind : Kind) (m : kind.Message) (limit : Nat) {link : Link}
    (hfits : forall room, link.room = some room -> (frame kind m).length ≤ room) :
    link.sendFrame kind m limit =
      (.ok (), { link with
        sent := link.sent ++ frame kind m
        room := link.room.map fun room => room - (frame kind m).length }) := by
  cases hroom : link.room with
  | none =>
      rw [sendFrame, send, hroom]
      rfl
  | some room =>
      rw [sendFrame, send, hroom]
      dsimp only
      rw [if_pos (hfits room hroom)]
      rfl

/-- Framing loses and doubles nothing.  What is sent of a message that there is room for
are the octets of its frame.
From octets that begin with the frames of messages, in whatever pieces they arrive, these
messages are received in order, and exactly what follows them is left.  A text that ends
inside a line ends the connection, no text at all too, and one that fills a line without
ending it is too large. -/
theorem framing_loses_nothing :
    (forall (kind : Kind) (m : kind.Message) (limit : Nat) (link : Link),
        (forall room, link.room = some room -> (frame kind m).length ≤ room) ->
        link.sendFrame kind m limit =
          (.ok (), { link with
            sent := link.sent ++ frame kind m
            room := link.room.map fun room => room - (frame kind m).length })) ∧
      (forall (deliveries : List Delivery) (link : Link) (rest : Bytes),
        (forall d, d ∈ deliveries -> d.Receivable) ->
        link.unread = deliveries.flatMap Delivery.frame ++ rest ->
        link.Flows (deliveries.map Delivery.limit) ->
        exists after, link.receiveEach (deliveries.map Delivery.request) =
            (deliveries.map Delivery.received, after) ∧ after.unread = rest) ∧
      (forall (kind : Kind) (limit : Option Nat) (link : Link) (cs : List Char),
        link.unread = Utf8.encode cs -> newline ∉ link.unread -> link.unread.length < maxLine ->
        link.Flows [limit] -> (link.receive kind limit).1 = .error (.receive kind .closed)) ∧
      forall (kind : Kind) (limit : Option Nat) (link : Link) (cs : List Char),
        maxLine ≤ link.unread.length -> link.unread.take maxLine = Utf8.encode cs ->
        newline ∉ link.unread.take maxLine -> link.Flows [limit] ->
        exists after, link.receive kind limit = (.error (.receive kind .tooLarge), after) ∧
          after.unread = link.unread.drop maxLine := by
  refine ⟨?_, ?_, ?_, ?_⟩
  · intro kind m limit link hfits
    exact sendFrame_of_fits kind m limit hfits
  · intro deliveries link rest hdeliveries hunread hflows
    exact receiveEach_frames hdeliveries (fun d hd => List.mem_map_of_mem hd) hunread hflows
  · intro kind limit link cs hunread hline hroom hflows
    exact receive_open kind hunread hline hroom hflows List.mem_cons_self
  · intro kind limit link cs hlong hcs hline hflows
    exact receive_full kind hcs hline (List.length_take_of_le hlong)
      (List.take_append_drop maxLine link.unread).symm hflows List.mem_cons_self

/-- A mix of so many octets to confirm. -/
def blankMix (n : Nat) : ConfirmMix where
  mix := Bytes.zeros n
  revealSecrets := true
  br := none
  err := 0
  signature := []

theorem length_frame_blankMix (n : Nat) : (frame .confirmMix (blankMix n)).length = 2 * n + 56 := by
  have hmix : (blankMix n).mix.length = n := List.length_replicate
  have hsignature : (blankMix n).signature.length = 0 := rfl
  have hreveal : Codec.bool.width (blankMix n).revealSecrets = 4 := rfl
  have herr : Codec.uint32.width 0 = 1 := by decide
  have hcode : (blankMix n).err = 0 := rfl
  rw [length_frame]
  show ConfirmMix.codec.width (blankMix n) + 1 = 2 * n + 56
  rw [ConfirmMix.width_eq rfl, hcode]
  omega

/-- Octets of so many blanks. -/
def blanks (n : Nat) : Bytes :=
  Utf8.encode (List.replicate n ' ')

theorem length_blanks (n : Nat) : (blanks n).length = n := by
  have hascii : Json.IsAsciiText (List.replicate n ' ') := by
    intro c hc
    rw [List.eq_of_mem_replicate hc]
    decide
  rw [blanks, length_encode_of_isAsciiText hascii, List.length_replicate]

theorem newline_not_mem_blanks (n : Nat) : newline ∉ blanks n := by
  intro hmem
  rcases List.mem_flatMap.mp hmem with ⟨c, hc, hoctet⟩
  rw [List.eq_of_mem_replicate hc] at hoctet
  exact absurd hoctet (by decide)

/-- A line as long as it may be goes out over a link with just enough room.  It is received
like the shorter one behind it, in pieces with a pause between them, and the octet that
remains is left.  No text at all ends the connection, and blanks that fill a line are too
large. -/
theorem framing_loses_nothing_of_longest_line :
    let mix : Delivery := ⟨.confirmMix, blankMix 8388580, none⟩
    let roots : Delivery :=
      ⟨.recoveredMessages,
        { run := 7, roots := [0, 258], revealSecrets := false, br := none, err := 0 }, none⟩
    let link := ofArrivals "coordinator" [.octets (mix.frame.take 3), .pause 20,
      .octets (mix.frame.drop 3 ++ roots.frame ++ [255])]
    let empty := ofArrivals "coordinator" []
    let full := ofArrivals "coordinator" [.octets (blanks maxLine ++ [1])]
    let narrow := { empty with room := some maxLine }
    mix.frame.length = maxLine ∧
      narrow.sendFrame .confirmMix (blankMix 8388580) 5 =
        (.ok (), { narrow with sent := mix.frame, room := some 0 }) ∧
      (exists after, link.receiveEach [mix.request, roots.request] =
          ([mix.received, roots.received], after) ∧ after.unread = [255]) ∧
      (empty.receive .beginRun (some 5)).1 = .error (.receive .beginRun .closed) ∧
      exists after,
        full.receive .beginRun (some 5) = (.error (.receive .beginRun .tooLarge), after) ∧
          after.unread = [1] := by
  intro mix roots link empty full narrow
  have hlength : mix.frame.length = maxLine := length_frame_blankMix 8388580
  have hmix : mix.Receivable := ⟨rfl, Nat.le_of_eq hlength⟩
  have hroots : roots.Receivable := by
    have hwidth := RecoveredMessages.width_le (m := roots.message) rfl (by decide)
    have hframe : roots.frame.length = RecoveredMessages.codec.width roots.message + 1 :=
      length_frame _ roots.message
    have hline : 2 * 35 + 70 + 1 ≤ maxLine := by decide
    exact ⟨rfl, Nat.le_trans (Nat.le_of_eq hframe) (Nat.le_trans (Nat.succ_le_succ hwidth) hline)⟩
  have hboth : forall d, d ∈ [mix, roots] -> d.Receivable := by
    intro d hd
    rcases List.mem_cons.mp hd with rfl | hd
    · exact hmix
    · rw [List.mem_singleton.mp hd]
      exact hroots
  have hunread : link.unread = [mix, roots].flatMap Delivery.frame ++ [255] := by
    have hpieces : forall first second third : Bytes,
        first ++ ([] ++ (second ++ third ++ [255] ++ [])) =
          first ++ second ++ (third ++ []) ++ [255] := by simp
    refine Eq.trans (hpieces (mix.frame.take 3) (mix.frame.drop 3) roots.frame) ?_
    rw [List.take_append_drop]
    rfl
  have hflows : link.Flows [none, none] := by
    intro a ha
    have hlimits : forall limit : Option Nat, limit ∈ [none, none] -> limit = none := by simp
    rcases List.mem_cons.mp ha with rfl | ha
    · exact trivial
    · rcases List.mem_cons.mp ha with rfl | ha
      · exact hlimits
      · rw [List.mem_singleton.mp ha]
        exact trivial
  have hblanks : full.unread = blanks maxLine ++ [1] := List.append_nil (blanks maxLine ++ [1])
  rcases framing_loses_nothing with ⟨hsends, hframes, hopen, hfull⟩
  refine ⟨hlength, ?_, ?_, ?_, ?_⟩
  · have hroom : forall room, narrow.room = some room -> mix.frame.length ≤ room := by
      intro room hroom
      cases hroom
      exact Nat.le_of_eq hlength
    have hleft : maxLine - mix.frame.length = 0 := by rw [hlength, Nat.sub_self]
    refine (hsends .confirmMix (blankMix 8388580) 5 narrow hroom).trans ?_
    rw [← hleft]
    rfl
  · exact hframes [mix, roots] link [255] hboth hunread hflows
  · exact hopen .beginRun (some 5) empty [] rfl nofun (by decide) nofun
  · have htake : full.unread.take maxLine = blanks maxLine := by
      rw [hblanks, List.take_left' (length_blanks maxLine)]
    have hdrop : full.unread.drop maxLine = [1] := by
      rw [hblanks, List.drop_left' (length_blanks maxLine)]
    rw [← hdrop]
    refine hfull .beginRun (some 5) full (List.replicate maxLine ' ') ?_ htake ?_ ?_
    · rw [hblanks, List.length_append, length_blanks]
      exact Nat.le_add_right maxLine _
    · rw [htake]
      exact newline_not_mem_blanks maxLine
    · intro a ha
      rw [List.mem_singleton.mp ha]
      exact trivial

end Link
end PeerMix
