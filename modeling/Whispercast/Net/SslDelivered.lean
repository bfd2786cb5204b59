import Mathlib.Algebra.Group.Nat.Defs
import Whispercast.Net.SslConnection

/-!
# What TLS connections deliver

The application is given all text of the records that have arrived, as long as no record of more than one buffer ends
with what has been read, no text arrives before the handshake is known to be over, and nothing arrives behind a close
alert.
-/

namespace Whispercast.Net

open Io Library List Option

/-! ## Records of the peer -/

/-- The text of a record. -/
def Content.plain : Content → Bytes
  | .data plain => plain
  | .handshake => []
  | .closeAlert => []

/-- The text of records. -/
def plainOf (records : List (Bytes × Content)) : Bytes := (records.map Prod.snd).flatMap Content.plain

@[simp] theorem plainOf_append (xs ys : List (Bytes × Content)) : plainOf (xs ++ ys) = plainOf xs ++ plainOf ys := by
  simp [plainOf]

@[simp] theorem plainOf_cons (w : Bytes) (c : Content) (xs : List (Bytes × Content)) :
    plainOf ((w, c) :: xs) = c.plain ++ plainOf xs := rfl

/-- The text of the records that are complete in the first `n` bytes of the peer. -/
def TlsPeer.plain (peer : TlsPeer) (n : Nat) : Bytes := (completeIn peer.records n).flatMap Content.plain

/-- Records with data, and then a close alert or nothing. -/
def Application : List (Bytes × Content) → Prop
  | [] => True
  | (_, .data plain) :: rs => plain.length ≤ kMaxPlain ∧ Application rs
  | (_, .closeAlert) :: rs => rs = []
  | (_, .handshake) :: _ => False

/-- So many messages of the handshake, and then records with data. -/
def Expects : Nat → List (Bytes × Content) → Prop
  | 0, rs => Application rs
  | n + 1, (_, .handshake) :: rs => Expects n rs
  | _ + 1, _ => False

/-- A record of more than one buffer ends behind `n` bytes. -/
def EndsLong : List (Bytes × Content) → Nat → Prop
  | [], _ => False
  | (w, c) :: rs, n => n = w.length ∧ kBufferSize < c.plain.length ∨ w.length ≤ n ∧ EndsLong rs (n - w.length)

instance decidableEndsLong : ∀ records n, Decidable (EndsLong records n)
  | [], _ => isFalse not_false
  | (w, c) :: rs, n =>
    have := decidableEndsLong rs (n - w.length)
    inferInstanceAs (Decidable (n = w.length ∧ kBufferSize < c.plain.length ∨
      w.length ≤ n ∧ EndsLong rs (n - w.length)))

/-- What is assumed of OpenSSL and of the peer: records are found when they are complete, no record has more text than
TLS allows, and there is a handshake. -/
structure TlsPeer.WellFormed (o : OpenSsl) (peer : TlsPeer) : Prop where
  framed : Framed o.record peer.records
  handshake : peer.handshake ≠ []
  short : ∀ x ∈ peer.data, x.2.length ≤ kMaxPlain

theorem TlsPeer.WellFormed.expects {o : OpenSsl} {peer : TlsPeer} (h : peer.WellFormed o) :
    Expects peer.handshake.length peer.records := by
  have happ : ∀ data : List (Bytes × Bytes), (∀ x ∈ data, x.2.length ≤ kMaxPlain) →
      Application (data.map (fun x => (x.1, .data x.2)) ++ peer.closing.toList.map fun x => (x.1, .closeAlert)) := by
    intro data hdata
    induction data with
    | nil =>
      cases peer.closing with
      | none => exact trivial
      | some x => exact rfl
    | cons x data ih =>
      exact ⟨hdata x mem_cons_self, ih fun y hy => hdata y (mem_cons_of_mem _ hy)⟩
  rw [TlsPeer.records, append_assoc]
  induction peer.handshake with
  | nil => exact happ peer.data h.short
  | cons w handshake ih => exact ih

section Engine

variable {o : OpenSsl} {rs : List (Bytes × Content)} {trailing : Bytes}

theorem EndsLong.append {n : Nat} (h : EndsLong rs n) (done : List (Bytes × Content)) :
    EndsLong (done ++ rs) ((symbols done).length + n) := by
  induction done with
  | nil => simpa [symbols] using h
  | cons r done ih =>
    obtain ⟨w, c⟩ := r
    refine .inr ⟨by simp [Nat.add_assoc], ?_⟩
    rw [show (symbols ((w, c) :: done)).length + n - w.length = (symbols done).length + n by simp; omega]
    exact ih

/-! ## The engine -/

/-- The handshake takes its messages as far as they have arrived. -/
theorem messages_spec {n : Nat} {s : Ssl} (h : Framed o.record rs) (hexpects : Expects n rs)
    (hqueue : s.rbio <+: symbols rs ++ trailing) (hleft : s.left = n) :
    ∃ result rbio wbio left done rs', s.messages o n = (result, { s with rbio := rbio, wbio := wbio, left := left }) ∧
      result ≠ .failed ∧ rs = done ++ rs' ∧ s.rbio = symbols done ++ rbio ∧ rbio <+: symbols rs' ++ trailing ∧
      Expects left rs' ∧ plainOf done = [] ∧ (left ≠ 0 → o.record rbio = none) := by
  induction n generalizing rs s with
  | zero =>
    refine ⟨.done, s.rbio, s.wbio, s.left, [], rs, rfl, by decide, rfl, rfl, hqueue, ?_, rfl, ?_⟩
    · rw [hleft]
      exact hexpects
    · exact fun hne => absurd hleft hne
  | succ n ih =>
    match rs, hexpects with
    | (w, .handshake) :: rs, hexpects =>
      by_cases hlen : w.length ≤ s.rbio.length
      · obtain ⟨rbio, hrbio, hqueue', hrecord⟩ := h.found hqueue hlen
        rw [Ssl.messages, hrecord]
        have hdrop : s.rbio.drop w.length = rbio := by rw [hrbio, drop_left]
        obtain ⟨result, rbio', wbio', left', done, rs', heq, hresult, hrs, hsplit, hqueue'', hexpects', hplain, hnone⟩ :=
          ih (s := { s with rbio := s.rbio.drop w.length, wbio := s.wbio ++ o.answer n, left := n }) h.tail hexpects
            (by rw [hdrop]; exact hqueue') rfl
        refine ⟨result, rbio', wbio', left', (w, .handshake) :: done, rs', heq, hresult, by rw [hrs]; rfl, ?_, hqueue'',
          hexpects', by rw [plainOf_cons, hplain]; rfl, hnone⟩
        rw [symbols_cons, append_assoc, ← hsplit]
        rw [hdrop, hrbio]
      · have hnone := h.missing hqueue (Nat.not_le.1 hlen)
        refine ⟨.wantRead, s.rbio, s.wbio, s.left, [], (w, .handshake) :: rs, ?_, by decide, rfl, rfl, hqueue, ?_, rfl,
          fun _ => hnone⟩
        · rw [Ssl.messages, hnone]
        · rw [hleft]
          exact hexpects

theorem readEnd_eq {ssl : Ssl} (h : ssl.pending = []) (data : Bytes) (blocked : Bool) :
    (⟨ssl, data, blocked, false⟩ : ReadEnd) =
      ⟨{ ssl with pending := [] }, data ++ ssl.pending ++ plainOf [], blocked, false⟩ := by
  have hsame : { ssl with pending := [] } = ssl := by rw [← h]
  rw [hsame, h, append_nil, show plainOf [] = [] from rfl, append_nil]

/-- The loop around `SSL_read` gives all text that has arrived, when no long record ends with it and nothing is behind a
close alert. -/
theorem readLoop_spec {n : Nat} {s : Ssl} (h : Framed o.record rs) (happ : Application rs)
    (hqueue : s.rbio <+: symbols rs) (hclosed : s.closed = true → rs = [])
    (hpending : s.pending ≠ [] → s.rbio ≠ []) (hlong : ¬ EndsLong rs s.rbio.length)
    (hturns : s.rbio.length * (kMaxPlain + 1) + s.pending.length < n) (data : Bytes) (blocked : Bool) :
    ∃ rbio closed blocked' done rs', rs = done ++ rs' ∧ s.rbio = symbols done ++ rbio ∧ Application rs' ∧
      (closed = true → rs' = []) ∧ completeIn rs' rbio.length = [] ∧
      readLoop o n s data blocked = some ⟨{ s with rbio := rbio, pending := [], closed := closed },
        data ++ s.pending ++ plainOf done, blocked', false⟩ := by
  induction n generalizing rs s data blocked with
  | zero => omega
  | succ n ih =>
    rw [readLoop]
    by_cases hnil : s.rbio = []
    · have hnone : s.pending = [] := not_not.1 fun hne => hpending hne hnil
      refine ⟨s.rbio, s.closed, blocked, [], rs, rfl, rfl, happ, hclosed, ?_, ?_⟩
      · rw [hnil]
        exact h.completeIn_zero
      · rw [if_pos hnil]
        exact congrArg some (readEnd_eq hnone data blocked)
    · rw [if_neg hnil, Ssl.read]
      by_cases hsome : s.pending ≠ []
      · -- A piece of the record that is open.
        have hpos := length_pos_iff.2 hsome
        have hless : (s.pending.drop kBufferSize).length < s.pending.length := by
          rw [length_drop, kBufferSize]
          omega
        obtain ⟨rbio, closed, blocked', done, rs', hrs, hsplit, happ', hclosed', hcomplete, hloop⟩ :=
          ih (s := { s with pending := s.pending.drop kBufferSize }) h happ hqueue hclosed (fun _ => hnil) hlong
            (by dsimp only; omega) (data ++ s.pending.take kBufferSize) false
        refine ⟨rbio, closed, blocked', done, rs', hrs, hsplit, happ', hclosed', hcomplete, ?_⟩
        rw [if_pos hsome]
        dsimp only at hloop ⊢
        rw [hloop, append_assoc data, take_append_drop]
      · rw [if_neg hsome]
        rw [not_not] at hsome
        have hopen : ¬ s.closed = true := fun hc => by
          rw [hclosed hc] at hqueue
          exact hnil (prefix_nil.1 hqueue)
        rw [if_neg hopen]
        match rs, happ with
        | [], _ => exact absurd (prefix_nil.1 hqueue) hnil
        | (w, .data plain) :: rs, happ =>
          by_cases hlen : w.length ≤ s.rbio.length
          · obtain ⟨rbio, hrbio, hqueue', hrecord⟩ :=
              h.found (by rw [append_nil]; exact hqueue) hlen
            rw [append_nil] at hqueue'
            have hdrop : s.rbio.drop w.length = rbio := by rw [hrbio, drop_left]
            have hpos : 0 < w.length := length_pos_iff.2 (h.ne_nil (w, .data plain) mem_cons_self)
            have hsub : s.rbio.length = w.length + rbio.length := by rw [hrbio, length_append]
            rw [hrecord]
            have hpending' : plain.drop kBufferSize ≠ [] → rbio ≠ [] := by
              intro hmore hrest
              refine hlong (.inl ⟨by rw [hsub, hrest]; rfl, ?_⟩)
              have := length_pos_iff.2 hmore
              rw [length_drop] at this
              exact (by omega : kBufferSize < plain.length)
            have hlong' : ¬ EndsLong rs rbio.length := fun hends =>
              hlong (.inr ⟨hlen, by rw [hsub, Nat.add_sub_cancel_left]; exact hends⟩)
            have hturns' : rbio.length * (kMaxPlain + 1) + (plain.drop kBufferSize).length < n := by
              have hplain := happ.1
              have hmul : rbio.length * (kMaxPlain + 1) + (kMaxPlain + 1) ≤ s.rbio.length * (kMaxPlain + 1) := by
                rw [← Nat.succ_mul]
                exact Nat.mul_le_mul_right _ (by omega)
              rw [length_drop]
              omega
            obtain ⟨rbio', closed, blocked', done, rs', hrs, hsplit, happ', hclosed', hcomplete, hloop⟩ :=
              ih (s := { s with rbio := rbio, pending := plain.drop kBufferSize }) h.tail happ.2 hqueue'
                (fun hc => absurd hc hopen) hpending' hlong' hturns' (data ++ plain.take kBufferSize) false
            refine ⟨rbio', closed, blocked', (w, .data plain) :: done, rs', by rw [hrs]; rfl, ?_, happ', hclosed',
              hcomplete, ?_⟩
            · rw [symbols_cons, append_assoc, ← hsplit, hrbio]
            · dsimp only at hloop ⊢
              rw [hdrop, hloop, hsome, append_nil, plainOf_cons, append_assoc data, Content.plain,
                take_append_drop, append_assoc]
          · have hnone := h.missing (by rw [append_nil]; exact hqueue) (Nat.not_le.1 hlen)
            rw [hnone]
            refine ⟨s.rbio, s.closed, true, [], (w, .data plain) :: rs, rfl, rfl, happ, hclosed, ?_, ?_⟩
            · rw [completeIn, if_neg hlen]
            · exact congrArg some (readEnd_eq hsome data true)
        | (w, .closeAlert) :: rs, happ =>
          by_cases hlen : w.length ≤ s.rbio.length
          · obtain ⟨rbio, hrbio, hqueue', hrecord⟩ :=
              h.found (by rw [append_nil]; exact hqueue) hlen
            obtain rfl : rs = [] := happ
            obtain rfl : rbio = [] := prefix_nil.1 hqueue'
            have hdrop : s.rbio.drop w.length = [] := by rw [hrbio, drop_left]
            have hpos : 0 < w.length := length_pos_iff.2 (h.ne_nil (w, .closeAlert) mem_cons_self)
            rw [hrecord]
            have hturns' : ([] : Bytes).length * (kMaxPlain + 1) + s.pending.length < n := by
              have hmul := Nat.mul_le_mul_right (kMaxPlain + 1) (by omega : 1 ≤ s.rbio.length)
              rw [hsome, length_nil, Nat.zero_mul]
              omega
            obtain ⟨rbio', closed, blocked', done, rs', hrs, hsplit, happ', hclosed', hcomplete, hloop⟩ :=
              ih (s := { s with rbio := [], closed := true }) h.tail trivial nil_prefix (fun _ => rfl)
                (fun hne => absurd hsome hne) not_false hturns' (data ++ []) false
            refine ⟨rbio', closed, blocked', (w, .closeAlert) :: done, rs', by rw [hrs]; rfl, ?_, happ', hclosed',
              hcomplete, ?_⟩
            · rw [symbols_cons, append_assoc, ← hsplit, hrbio]
            · dsimp only at hloop ⊢
              rw [hdrop, hloop, plainOf_cons, Content.plain, append_nil, nil_append]
          · have hnone := h.missing (by rw [append_nil]; exact hqueue) (Nat.not_le.1 hlen)
            rw [hnone]
            refine ⟨s.rbio, s.closed, true, [], (w, .closeAlert) :: rs, rfl, rfl, happ, hclosed, ?_, ?_⟩
            · rw [completeIn, if_neg hlen]
            · exact congrArg some (readEnd_eq hsome data true)

/-- Behind a close alert the loop does not come to its end while there are bytes in the queue. -/
theorem readLoop_diverges {s : Ssl} (hclosed : s.closed = true) (hpending : s.pending = []) (hrbio : s.rbio ≠ [])
    (n : Nat) (data : Bytes) (blocked : Bool) : readLoop o n s data blocked = none := by
  induction n generalizing data blocked with
  | zero => rfl
  | succ n ih =>
    rw [readLoop, if_neg hrbio, Ssl.read, if_neg (not_not.2 hpending), if_pos hclosed]
    exact ih _ _

end Engine

/-! ## The connection -/

namespace SslConnection

/-- All text that has arrived has been given to the application as soon as the handshake is known to be over; and until
then, when the handshake is over, a write event is asked for. -/
structure Prompt (peer : TlsPeer) (c : SslConnection) : Prop where
  delivered : c.state = .connected → c.given = peer.plain c.arrived
  connects : c.ssl.IsInitFinished → c.state = .connected ∨ c.state = .connecting ∧ c.write_events = true

/-- The event can happen: bytes are on their way, or a write event has been asked for. -/
def Happens (peer : TlsPeer) (c : SslConnection) : TlsEvent → Prop
  | .read n _ _ => n ≠ 0 ∧ c.arrived + n ≤ peer.stream.length
  | .write _ _ => c.write_events = true
  | .send _ => True

/-- No text arrives while the handshake is not known to be over; and then no record of more than one buffer ends with
what is read, and nothing is read from behind a close alert. -/
def Careful (peer : TlsPeer) (c : SslConnection) : TlsEvent → Prop
  | .read n _ _ =>
    if c.state = .connecting then peer.plain (c.arrived + n) = []
    else c.arrived + n ≤ (symbols peer.records).length ∧ ¬ EndsLong peer.records (c.arrived + n)
  | .write _ _ => True
  | .send _ => True

instance (peer : TlsPeer) (c : SslConnection) : DecidablePred (c.Happens peer)
  | .read n _ _ => inferInstanceAs (Decidable (n ≠ 0 ∧ c.arrived + n ≤ peer.stream.length))
  | .write _ _ => inferInstanceAs (Decidable (c.write_events = true))
  | .send _ => isTrue trivial

instance (peer : TlsPeer) (c : SslConnection) : DecidablePred (c.Careful peer)
  | .read n _ _ => inferInstanceAs (Decidable (if c.state = .connecting then peer.plain (c.arrived + n) = []
      else c.arrived + n ≤ (symbols peer.records).length ∧ ¬ EndsLong peer.records (c.arrived + n)))
  | .write _ _ | .send _ => isTrue trivial

/-- Where the stream is, when the records `done` have been taken out of the queue. -/
structure Placed (peer : TlsPeer) (done rs : List (Bytes × Content)) (c : SslConnection) : Prop where
  records : peer.records = done ++ rs
  arrived : c.arrived = (symbols done).length + c.ssl.rbio.length
  queue : c.ssl.rbio <+: symbols rs ++ peer.trailing
  expects : Expects c.ssl.left rs
  started : c.ssl.left = 0 → c.ssl.started = true
  pending : c.ssl.pending = []
  closed : c.ssl.closed = true → rs = []
  given : c.given = plainOf done
  complete : (completeIn rs c.ssl.rbio.length).flatMap Content.plain = []

/-- What holds between events. -/
structure Inv (o : OpenSsl) (peer : TlsPeer) (done rs : List (Bytes × Content)) (c : SslConnection) : Prop
    extends c.Placed peer done rs where
  waits : c.ssl.left ≠ 0 → o.record c.ssl.rbio = none
  state : c.state = .connecting ∧ c.handshake_finished_ = false ∨
    c.state = .connected ∧ c.handshake_finished_ = true ∧ c.ssl.left = 0
  asks : c.state = .connecting → c.ssl.left = 0 → c.write_events = true

variable {o : OpenSsl} {peer : TlsPeer} {done rs : List (Bytes × Content)} {c c' : SslConnection}

theorem inv_new (h : peer.WellFormed o) (write_events : Bool) : (new peer write_events).Inv o peer [] peer.records := by
  have hne : (new peer write_events).ssl.left ≠ 0 := fun h0 => h.handshake (eq_nil_of_length_eq_zero h0)
  refine ⟨⟨rfl, rfl, nil_prefix, h.expects, fun h0 => absurd h0 hne, rfl, (nomatch ·), rfl, ?_⟩, fun _ => ?_,
    .inl ⟨rfl, rfl⟩, fun _ h0 => absurd h0 hne⟩
  · show (completeIn peer.records 0).flatMap Content.plain = []
    rw [h.framed.completeIn_zero]
    rfl
  · -- The first message has not arrived.
    obtain ⟨w, _, heq⟩ := exists_cons_of_ne_nil h.handshake
    have hmem : (w, Content.handshake) ∈ peer.records := by simp [TlsPeer.records, heq]
    exact h.framed.short _ hmem [] nil_prefix fun hnil => h.framed.ne_nil _ hmem hnil.symm

theorem Placed.plain_eq (h : c.Placed peer done rs) : peer.plain c.arrived = c.given := by
  rw [TlsPeer.plain, h.records, h.arrived, completeIn_append, flatMap_append, h.complete, append_nil, h.given,
    plainOf]

theorem Inv.prompt (h : c.Inv o peer done rs) : c.Prompt peer where
  delivered _ := h.toPlaced.plain_eq.symm
  connects hfinished := by
    rcases h.state with ⟨hstate, -⟩ | ⟨hstate, -⟩
    · exact .inr ⟨hstate, h.asks hstate hfinished.2⟩
    · exact .inl hstate

/-- Bytes arrive at the engine. -/
theorem Placed.input (h : c.Placed peer done rs) {n : Nat} (hn : c.arrived + n ≤ peer.stream.length) :
    (c.ssl.rbio ++ (peer.stream.drop c.arrived).take n) <+: symbols rs ++ peer.trailing ∧
      c.arrived + n = (symbols done).length + (c.ssl.rbio ++ (peer.stream.drop c.arrived).take n).length := by
  obtain ⟨rest, hrest⟩ := h.queue
  have hdrop : peer.stream.drop c.arrived = rest := by
    rw [TlsPeer.stream, h.records, symbols_append, append_assoc, ← hrest, ← append_assoc, h.arrived,
      ← length_append, drop_left]
  have hlen : n ≤ rest.length := by
    have := congrArg length hdrop
    rw [length_drop] at this
    omega
  rw [hdrop, ← hrest]
  refine ⟨(prefix_append_right_inj _).2 ( take_prefix n rest), ?_⟩
  rw [length_append, length_take, Nat.min_eq_left hlen, h.arrived]
  omega

/-- The handshake goes on, on a queue that may have grown. -/
theorem Placed.sslHandshake (hwell : peer.WellFormed o) (h : c.Placed peer done rs) (hstate : c.state = .connecting)
    (hfinished : c.handshake_finished_ = false) : ∃ done' rs', (c.sslHandshake o).Inv o peer done' rs' := by
  rw [SslConnection.sslHandshake, if_neg (by rw [hfinished]; exact Bool.false_ne_true)]
  by_cases hinit : c.ssl.IsInitFinished
  · rw [if_pos hinit]
    split_ifs
    · exact ⟨done, rs, ⟨h.records, h.arrived, h.queue, h.expects, h.started, h.pending, h.closed, h.given, h.complete⟩,
        fun hne => absurd hinit.2 hne, .inl ⟨hstate, hfinished⟩, fun _ _ => rfl⟩
    · exact ⟨done, rs, ⟨h.records, h.arrived, h.queue, h.expects, h.started, h.pending, h.closed, h.given, h.complete⟩,
        fun hne => absurd hinit.2 hne, .inr ⟨rfl, rfl, hinit.2⟩, (nomatch ·)⟩
  · rw [if_neg hinit, Ssl.doHandshake]
    have hframed : Framed o.record rs := Framed.right (h.records ▸ hwell.framed)
    set ssl := if c.ssl.started then c.ssl else
      { c.ssl with started := true, wbio := c.ssl.wbio ++ o.answer c.ssl.left } with hssl
    have hsame : ssl.rbio = c.ssl.rbio ∧ ssl.left = c.ssl.left ∧ ssl.pending = c.ssl.pending ∧
        ssl.closed = c.ssl.closed ∧ ssl.started = true := by
      rw [hssl]
      split_ifs with hs
      · exact ⟨rfl, rfl, rfl, rfl, hs⟩
      · exact ⟨rfl, rfl, rfl, rfl, rfl⟩
    obtain ⟨hrbio, hleft, hpending, hclosed, hstarted⟩ := hsame
    obtain ⟨result, rbio, wbio, left, d, rs', heq, hresult, hrs, hsplit, hqueue, hexpects, hplain, hnone⟩ :=
      messages_spec (s := ssl) hframed (hleft ▸ h.expects) (by rw [hrbio]; exact h.queue) rfl
    have hinv : Inv o peer (done ++ d) rs'
        { c with ssl := { ssl with rbio := rbio, wbio := wbio, left := left }, write_events := true } := by
      refine ⟨⟨by rw [h.records, hrs, append_assoc], ?_, hqueue, hexpects, fun _ => hstarted,
        hpending.trans h.pending, ?_, ?_, ?_⟩, hnone, .inl ⟨hstate, hfinished⟩, fun _ _ => rfl⟩
      · rw [symbols_append, length_append]
        rw [h.arrived, ← hrbio, hsplit, length_append, Nat.add_assoc]
      · intro hc
        have hnil := h.closed (hclosed ▸ hc)
        rw [hrs] at hnil
        exact (append_eq_nil_iff.1 hnil).2
      · rw [h.given, plainOf_append, hplain, append_nil]
      · have hcomplete := h.complete
        rw [hrs, ← hrbio, hsplit, length_append, completeIn_append, flatMap_append] at hcomplete
        exact (append_eq_nil_iff.1 hcomplete).2
    refine ⟨done ++ d, rs', ?_⟩
    rw [heq]
    cases result with
    | failed => exact absurd rfl hresult
    | wantRead => exact hinv
    | done => exact hinv

theorem Inv.live (h : c.Inv o peer done rs) : c.state ≠ .disconnected := by
  rcases h.state with ⟨hstate, -⟩ | ⟨hstate, -⟩ <;> rw [hstate] <;> decide

/-- What has been read is given to the application. -/
theorem Inv.afterRead (h : c.Inv o peer done rs) (hstate : c.state = .connected) {d rs' : List (Bytes × Content)}
    {rbio : Bytes} {closed blocked : Bool} {arrived : Nat} (hrs : rs = d ++ rs')
    (harrived : arrived = (symbols (done ++ d)).length + rbio.length)
    (hqueue : rbio <+: symbols rs' ++ peer.trailing) (happ : Application rs') (hclosed : closed = true → rs' = [])
    (hcomplete : completeIn rs' rbio.length = []) (ssl : Ssl) (hleft : ssl.left = 0) (hstarted : ssl.started = true)
    (take : Nat) (answer : Bytes) :
    ({ c with arrived := arrived, ssl := ssl }.afterRead
      ⟨{ ssl with rbio := rbio, pending := [], closed := closed }, plainOf d, blocked, false⟩ take answer).Inv o peer
        (done ++ d) rs' := by
  have hrecords : peer.records = (done ++ d) ++ rs' := by rw [h.records, hrs, append_assoc]
  have hnone : (completeIn rs' rbio.length).flatMap Content.plain = [] := by
    rw [hcomplete]
    rfl
  have hexpects : Expects ssl.left rs' := by
    rw [hleft]
    exact happ
  have hfinished : c.handshake_finished_ = true := by
    rcases h.state with ⟨hconnecting, -⟩ | ⟨-, hfinished, -⟩
    · rw [hstate] at hconnecting
      cases hconnecting
    · exact hfinished
  have hgiven : c.given ++ plainOf d = plainOf (done ++ d) := by rw [h.given, plainOf_append]
  rw [SslConnection.afterRead]
  rw [if_neg Bool.false_ne_true]
  by_cases hnil : c.inbuf ++ plainOf d = []
  · -- There is no text in the records.
    rw [if_pos hnil]
    refine ⟨⟨hrecords, harrived, hqueue, hexpects, fun _ => hstarted, rfl, hclosed, ?_, hnone⟩,
      fun hne => absurd hleft hne, .inr ⟨hstate, hfinished, hleft⟩, fun hc => ?_⟩
    · show c.given = _
      rw [← hgiven, (append_eq_nil_iff.1 hnil).2, append_nil]
    · rw [show c.state = _ from hc] at hstate
      cases hstate
  · rw [if_neg hnil]
    refine ⟨⟨hrecords, harrived, hqueue, hexpects, fun _ => hstarted, rfl, hclosed, hgiven, hnone⟩,
      fun hne => absurd hleft hne, .inr ⟨hstate, hfinished, hleft⟩, fun hc => ?_⟩
    rw [show c.state = _ from hc] at hstate
    cases hstate

/-- A read event. -/
theorem Inv.read (hwell : peer.WellFormed o) (h : c.Inv o peer done rs) {n take : Nat} {answer : Bytes}
    (hhappens : c.Happens peer (.read n take answer)) (hcareful : c.Careful peer (.read n take answer)) :
    ∃ c' done' rs', c.step o peer (.read n take answer) = some c' ∧ c'.Inv o peer done' rs' := by
  obtain ⟨hn, hle⟩ := hhappens
  obtain ⟨hqueue, harrived⟩ := h.input hle
  have hpossible : ¬ (c.state = .disconnected ∨ n = 0 ∨ peer.stream.length < c.arrived + n) := by
    rintro (hdead | hzero | _)
    · exact h.live hdead
    · exact hn hzero
    · omega
  rw [step, if_neg hpossible]
  generalize (peer.stream.drop c.arrived).take n = input at hqueue harrived
  rw [tcpConnectionReadHandler]
  dsimp only
  rw [Careful] at hcareful
  rcases h.state with ⟨hstate, hfinished⟩ | ⟨hstate, -, hleft⟩
  · rw [if_pos hstate] at hcareful ⊢
    have hplaced : Placed peer done rs
        { c with arrived := c.arrived + n, ssl := { c.ssl with rbio := c.ssl.rbio ++ input } } := by
      refine ⟨h.records, harrived, hqueue, h.expects, h.started, h.pending, h.closed, h.given, ?_⟩
      rw [TlsPeer.plain, h.records, harrived, completeIn_append, flatMap_append] at hcareful
      exact (append_eq_nil_iff.1 hcareful).2
    obtain ⟨done', rs', hinv⟩ := hplaced.sslHandshake hwell hstate hfinished
    exact ⟨_, done', rs', rfl, hinv⟩
  · have hopen : ¬ c.state = .connecting := by
      rw [hstate]
      decide
    rw [if_neg hopen] at hcareful ⊢
    obtain ⟨_, hlong⟩ := hcareful
    have hsymbols : (symbols peer.records).length = (symbols done).length + (symbols rs).length := by
      rw [h.records, symbols_append, length_append]
    have hpre : c.ssl.rbio ++ input <+: symbols rs :=
      prefix_of_prefix_length_le hqueue (prefix_append _ _) (by omega)
    have happ : Application rs := by
      have hexpects := h.expects
      rw [hleft] at hexpects
      exact hexpects
    have hnot : ¬ EndsLong rs (c.ssl.rbio ++ input).length := fun hends => by
      have hall := hends.append done
      rw [← h.records, ← harrived] at hall
      exact hlong hall
    obtain ⟨rbio, _, _, d, rs', hrs, hsplit, happ', hclosed', hcomplete, hloop⟩ :=
      readLoop_spec (s := { c.ssl with rbio := c.ssl.rbio ++ input }) (Framed.right (h.records ▸ hwell.framed)) happ hpre
        h.closed (fun hne => absurd h.pending hne) hnot (Nat.lt_succ_self _) [] c.read_blocked_
    have hdata : ([] : Bytes) ++ c.ssl.pending ++ plainOf d = plainOf d := by rw [h.pending, nil_append, nil_append]
    refine ⟨_, done ++ d, rs', by rw [hloop, map_some], ?_⟩
    dsimp only at hsplit ⊢
    rw [hdata]
    rw [hsplit, hrs, symbols_append] at hpre
    refine h.afterRead hstate hrs ?_ (((prefix_append_right_inj _).1 hpre).trans (prefix_append _ _)) happ' hclosed'
      hcomplete { c.ssl with rbio := c.ssl.rbio ++ input } hleft (h.started hleft) take answer
    rw [harrived, hsplit, symbols_append, length_append, length_append, Nat.add_assoc]

/-- What is to be sent is of no account, unless the handshake is about to end. -/
theorem Inv.output (h : c.Inv o peer done rs) {started : Bool} (hstarted : c.ssl.left = 0 → started = true)
    {write_events : Bool} (hasks : c.state = .connecting → c.ssl.left = 0 → write_events = true)
    (wbio outbuf tcp_outbuf : Bytes) :
    Inv o peer done rs { c with
      ssl := { c.ssl with started := started, wbio := wbio }
      outbuf := outbuf, tcp_outbuf := tcp_outbuf, write_events := write_events } :=
  ⟨⟨h.records, h.arrived, h.queue, h.expects, hstarted, h.pending, h.closed, h.given, h.complete⟩, h.waits, h.state,
    hasks⟩

/-- A write event does not take anything out of the queue. -/
theorem Inv.tcpConnectionWriteHandler (h : c.Inv o peer done rs) (more : Bytes) :
    (c.tcpConnectionWriteHandler o more).Inv o peer done rs ∧
      ((c.tcpConnectionWriteHandler o more).state = .connecting → c.ssl.left = 0 →
        (c.tcpConnectionWriteHandler o more).tcp_outbuf ≠ []) ∧
      (c.tcpConnectionWriteHandler o more).ssl.left = c.ssl.left := by
  rw [SslConnection.tcpConnectionWriteHandler]
  by_cases hconnecting : c.state = .connecting
  · have hfinished : c.handshake_finished_ = false := by
      rcases h.state with ⟨-, hfinished⟩ | ⟨hstate, -⟩
      · exact hfinished
      · rw [hconnecting] at hstate
        cases hstate
    rw [if_pos hconnecting, SslConnection.sslHandshake, if_neg (by rw [hfinished]; exact Bool.false_ne_true)]
    by_cases hleft : c.ssl.left = 0
    · have hinit : c.ssl.IsInitFinished := ⟨h.started hleft, hleft⟩
      rw [if_pos hinit]
      by_cases hwbio : c.ssl.wbio ≠ []
      · rw [if_pos hwbio]
        refine ⟨h.output h.started (fun _ _ => rfl) _ _ _, fun _ _ hnil => ?_, rfl⟩
        exact hwbio (append_eq_nil_iff.1 hnil).2
      · rw [if_neg hwbio]
        have hconnected : Inv o peer done rs { c with handshake_finished_ := true, state := .connected } :=
          ⟨⟨h.records, h.arrived, h.queue, h.expects, h.started, h.pending, h.closed, h.given, h.complete⟩, h.waits,
            .inr ⟨rfl, rfl, hleft⟩, (nomatch ·)⟩
        exact ⟨hconnected.output h.started (nomatch ·) _ _ _, (nomatch ·), rfl⟩
    · -- No further message is there.
      have hinit : ¬ c.ssl.IsInitFinished := fun hinit => hleft hinit.2
      obtain ⟨n, hn⟩ := Nat.exists_eq_succ_of_ne_zero hleft
      rw [if_neg hinit, Ssl.doHandshake]
      have hmessages : ∀ s : Ssl, s.rbio = c.ssl.rbio → s.left = c.ssl.left → s.messages o s.left = (.wantRead, s) := by
        intro s hrbio hsame
        rw [hsame, hn, Ssl.messages, hrbio, h.waits hleft]
      by_cases hstarted : c.ssl.started = true
      · rw [if_pos hstarted, hmessages c.ssl rfl rfl]
        exact ⟨h.output h.started (fun _ h0 => absurd h0 hleft) _ _ _, fun _ h0 => absurd h0 hleft, rfl⟩
      · rw [if_neg hstarted, hmessages { c.ssl with started := true, wbio := c.ssl.wbio ++ o.answer c.ssl.left } rfl rfl]
        exact ⟨h.output (fun _ => rfl) (fun _ h0 => absurd h0 hleft) _ _ _, fun _ h0 => absurd h0 hleft, rfl⟩
  · have hnot : ∀ b : Bool, c.state = .connecting → c.ssl.left = 0 → b = true := fun _ hc => absurd hc hconnecting
    rw [if_neg hconnecting, SslConnection.sslWrite]
    split_ifs
    · exact ⟨h.output h.started (hnot _) _ _ _, fun hc => absurd hc hconnecting, rfl⟩
    · exact ⟨h.output h.started (hnot _) _ _ _, fun hc => absurd hc hconnecting, rfl⟩

/-- A write event. -/
theorem Inv.write (h : c.Inv o peer done rs) {taken : Nat} {more : Bytes}
    (hhappens : c.Happens peer (.write taken more)) :
    ∃ c', c.step o peer (.write taken more) = some c' ∧ c'.Inv o peer done rs := by
  have hpossible : ¬ (c.state = .disconnected ∨ c.write_events = false) := by
    rintro (hdead | hnone)
    · exact h.live hdead
    · rw [show c.write_events = true from hhappens] at hnone
      cases hnone
  rw [step, if_neg hpossible]
  refine ⟨_, rfl, ?_⟩
  rw [handleWriteEvent]
  have hsent : Inv o peer done rs { c with tcp_outbuf := c.tcp_outbuf.drop taken } :=
    h.output h.started h.asks c.ssl.wbio c.outbuf _
  obtain ⟨hinv, hleaves, hleft⟩ := hsent.tcpConnectionWriteHandler more
  by_cases hnil : (SslConnection.tcpConnectionWriteHandler o more
      { c with tcp_outbuf := c.tcp_outbuf.drop taken }).tcp_outbuf = []
  · rw [if_pos hnil]
    exact hinv.output hinv.started (fun hc h0 => absurd hnil (hleaves hc (hleft.symm.trans h0))) _ _ _
  · rw [if_neg hnil]
    exact hinv

theorem Inv.step (hwell : peer.WellFormed o) (h : c.Inv o peer done rs) {event : TlsEvent}
    (hhappens : c.Happens peer event) (hcareful : c.Careful peer event) :
    ∃ c' done' rs', c.step o peer event = some c' ∧ c'.Inv o peer done' rs' := by
  cases event with
  | read n take answer => exact h.read hwell hhappens hcareful
  | write taken more =>
    obtain ⟨c', hstep, hinv⟩ := h.write hhappens
    exact ⟨c', done, rs, hstep, hinv⟩
  | send data =>
    rw [SslConnection.step, if_neg h.live]
    exact ⟨_, done, rs, rfl, h.output h.started (fun _ _ => rfl) c.ssl.wbio _ c.tcp_outbuf⟩

/-- A write event when the handshake is over. -/
theorem Inv.ends (h : c.Inv o peer done rs) (hfinished : c.ssl.IsInitFinished) (hstate : c.state = .connecting)
    {taken : Nat} {more : Bytes} (hs : c.step o peer (.write taken more) = some c') :
    (c.ssl.wbio = [] → c'.state = .connected) ∧
      (c.ssl.wbio ≠ [] → c'.state = .connecting ∧ c'.ssl = { c.ssl with wbio := [] }) := by
  have hfirst : c.handshake_finished_ = false := by
    rcases h.state with ⟨-, hfirst⟩ | ⟨hconnected, -⟩
    · exact hfirst
    · rw [hstate] at hconnected
      cases hconnected
  rw [SslConnection.step] at hs
  split_ifs at hs
  obtain rfl := Option.some.inj hs
  have hnot : ¬ c.handshake_finished_ = true := by
    rw [hfirst]
    exact Bool.false_ne_true
  rw [handleWriteEvent, SslConnection.tcpConnectionWriteHandler]
  rw [if_pos hstate, SslConnection.sslHandshake, if_neg hnot, if_pos hfinished]
  constructor
  · intro hwbio
    rw [if_neg (not_not.2 hwbio)]
    split_ifs <;> rfl
  · intro hwbio
    rw [if_pos hwbio]
    split_ifs <;> exact ⟨hstate, rfl⟩

/-- When the handshake is over, the second write event at the latest makes it known. -/
theorem Inv.connects (h : c.Inv o peer done rs) (hfinished : c.ssl.IsInitFinished) (hstate : c.state = .connecting)
    {x y : TlsEvent} (hx : ∃ taken more, x = .write taken more) (hy : ∃ taken more, y = .write taken more)
    {c'' : SslConnection} (hs : c.step o peer x = some c') (hs' : c'.step o peer y = some c'') :
    c'.state = .connected ∨ c''.state = .connected := by
  obtain ⟨taken, more, rfl⟩ := hx
  obtain ⟨_, _, rfl⟩ := hy
  have hfirst := h.ends hfinished hstate hs
  by_cases hwbio : c.ssl.wbio = []
  · exact .inl (hfirst.1 hwbio)
  · obtain ⟨hstate', hssl⟩ := hfirst.2 hwbio
    have hhappens : c.Happens peer (.write taken more) := h.asks hstate hfinished.2
    obtain ⟨d, hd, hinv⟩ := h.write hhappens
    obtain rfl := Option.some.inj (hd.symm.trans hs)
    exact .inr ((hinv.ends (by rw [hssl]; exact hfinished) hstate' hs').1 (by rw [hssl]))

/-- In every run along the condition the handlers come to their end, and the application is given what has arrived. -/
theorem tls_data_delivered (o : OpenSsl) (peer : TlsPeer) (hwell : peer.WellFormed o) (write_events : Bool)
    (events : List TlsEvent)
    (hevents : Along (step o peer) (fun c e => c.Happens peer e ∧ c.Careful peer e) (new peer write_events) events) :
    ∃ c, run (step o peer) (new peer write_events) events = some c ∧ c.Prompt peer ∧
      (c.ssl.IsInitFinished → c.state = .connecting → ∀ taken more taken' more' c' c'',
        c.step o peer (.write taken more) = some c' → c'.step o peer (.write taken' more') = some c'' →
          c'.state = .connected ∨ c''.state = .connected) := by
  obtain ⟨c, hrun, done, rs, hinv⟩ := run_along
    (I := fun c => ∃ done rs, c.Inv o peer done rs)
    (fun c e ⟨done, rs, h⟩ he => by
      obtain ⟨c', done', rs', hstep, hinv⟩ := h.step hwell he.1 he.2
      exact ⟨c', hstep, done', rs', hinv⟩)
    ⟨[], peer.records, inv_new hwell write_events⟩ hevents
  refine ⟨c, hrun, hinv.prompt, fun hfinished hstate taken more taken' more' c' c'' hs hs' => ?_⟩
  exact hinv.connects hfinished hstate ⟨taken, more, rfl⟩ ⟨taken', more', rfl⟩ hs hs'

/-! ## Samples -/

/-- A record with a kind, a length and a text. -/
def clearRecord (kind : UInt8) (text : Bytes) : Bytes :=
  kind :: UInt8.ofNat (text.length / 256) :: UInt8.ofNat (text.length % 256) :: text

/-- What a record of a kind carries. -/
def clearContent (kind : UInt8) (text : Bytes) : Content :=
  if kind = 22 then .handshake else if kind = 21 then .closeAlert else .data text

/-- Records that are not encrypted, and a handshake that ends with a byte. -/
def clearSsl : OpenSsl where
  record
    | kind :: high :: low :: rest =>
      if rest.length < high.toNat * 256 + low.toNat then none
      else some (clearContent kind (rest.take (high.toNat * 256 + low.toNat)), high.toNat * 256 + low.toNat + 3)
    | _ => none
  answer n := if n = 0 then [20] else []
  sealed := clearRecord 23

theorem clearLength {text : Bytes} (h : text.length < 2 ^ 16) :
    (UInt8.ofNat (text.length / 256)).toNat * 256 + (UInt8.ofNat (text.length % 256)).toNat = text.length := by
  rw [UInt8.toNat_ofNat', UInt8.toNat_ofNat']
  omega

theorem clearSsl_framed {records : List (Bytes × Content)}
    (h : ∀ r ∈ records, ∃ kind text, text.length < 2 ^ 16 ∧ r = (clearRecord kind text, clearContent kind text)) :
    Framed clearSsl.record records where
  ne_nil r hr := by
    obtain ⟨kind, text, -, rfl⟩ := h r hr
    exact cons_ne_nil _ _
  whole r hr rest := by
    obtain ⟨kind, text, hlen, rfl⟩ := h r hr
    simp only [clearSsl, clearRecord, cons_append, clearLength hlen]
    rw [if_neg (by simp), take_left]
    rfl
  short r hr p hp hne := by
    obtain ⟨kind, text, hlen, rfl⟩ := h r hr
    rcases p with _ | ⟨a, _ | ⟨b, _ | ⟨c, q⟩⟩⟩
    · rfl
    · rfl
    · rfl
    · simp only [clearRecord, cons_prefix_cons] at hp
      obtain ⟨ha, hb, hc, hq⟩ := hp
      have hless : q.length < text.length := by
        refine lt_of_le_of_ne hq.length_le fun heq => hne ?_
        rw [hq.eq_of_length heq, ha, hb, hc]
        rfl
      simp only [clearSsl, hb, hc, clearLength hlen, if_pos hless]

/-- A message of the handshake. -/
def hello : Bytes := clearRecord 22 [1]

/-- Two records and a close alert. -/
def twoRecords : TlsPeer where
  handshake := [hello]
  data := [(clearRecord 23 [7], [7]), (clearRecord 23 [8, 9], [8, 9])]
  closing := some (clearRecord 21 [], [])

theorem twoRecords_wellFormed : twoRecords.WellFormed clearSsl where
  framed := clearSsl_framed (by
    simp only [twoRecords, TlsPeer.records, hello, map_cons, map_nil, toList_some, cons_append,
      nil_append, forall_mem_cons]
    exact ⟨⟨22, [1], by decide, rfl⟩, ⟨23, [7], by decide, rfl⟩, ⟨23, [8, 9], by decide, rfl⟩, ⟨21, [], by decide, rfl⟩,
      fun _ h => by cases h⟩)
  handshake := cons_ne_nil _ _
  short := by decide

/-- The handshake, and the records in pieces. -/
def twoRecordsRun : List TlsEvent :=
  [.read 4 0 [], .write 0 [], .write 1 [], .read 6 9 [5], .write 0 [], .read 6 0 []]

theorem tls_data_delivered_two :
    ∃ c, run (step clearSsl twoRecords) (new twoRecords false) twoRecordsRun = some c ∧ c.Prompt twoRecords ∧
      (c.ssl.IsInitFinished → c.state = .connecting → ∀ taken more taken' more' c' c'',
        c.step clearSsl twoRecords (.write taken more) = some c' →
          c'.step clearSsl twoRecords (.write taken' more') = some c'' → c'.state = .connected ∨ c''.state = .connected) :=
  tls_data_delivered clearSsl twoRecords twoRecords_wellFormed false twoRecordsRun (by decide +kernel)

/-- A record of more than one buffer. -/
def longRecord : TlsPeer where
  handshake := [hello]
  data := [(clearRecord 23 (List.replicate 1025 7), List.replicate 1025 7)]

/-- A close alert with a byte behind it. -/
def alertAndByte : TlsPeer where
  handshake := [hello]
  data := []
  closing := some (clearRecord 21 [], [0])

/-- The end of a long record stays in the engine, and text that arrives with the last message of the handshake in the
queue; behind a close alert the loop goes on for ever. -/
theorem tls_data_not_delivered :
    (∃ c, run (step clearSsl longRecord) (new longRecord false)
        [.read 4 0 [], .write 0 [], .write 1 [], .read 1028 2000 []] = some c ∧
      c.write_events = false ∧ ¬ c.Prompt longRecord) ∧
    (∃ c, run (step clearSsl twoRecords) (new twoRecords false) [.read 8 0 [], .write 0 [], .write 1 []] = some c ∧
      c.write_events = false ∧ ¬ c.Prompt twoRecords) ∧
    ∃ c, run (step clearSsl alertAndByte) (new alertAndByte false) [.read 4 0 [], .write 0 [], .write 1 []] = some c ∧
      c.Happens alertAndByte (.read 4 0 []) ∧ c.step clearSsl alertAndByte (.read 4 0 []) = none ∧
        ∀ turns, readLoop clearSsl turns { c.ssl with rbio := c.ssl.rbio ++ [21, 0, 0, 0] } [] false = none := by
  refine ⟨?_, ?_, ?_⟩
  · obtain ⟨c, hrun, hc⟩ := (any_eq_true _ _).1 (show (run (step clearSsl longRecord) (new longRecord false)
      [.read 4 0 [], .write 0 [], .write 1 [], .read 1028 2000 []]).any (fun c => c.write_events = false ∧
        c.state = .connected ∧ c.given ≠ longRecord.plain c.arrived) = true by decide +kernel)
    obtain ⟨hquiet, hstate, hne⟩ := of_decide_eq_true hc
    exact ⟨c, hrun, hquiet, fun h => hne (h.delivered hstate)⟩
  · obtain ⟨c, hrun, hc⟩ := (any_eq_true _ _).1 (show (run (step clearSsl twoRecords) (new twoRecords false)
      [.read 8 0 [], .write 0 [], .write 1 []]).any (fun c => c.write_events = false ∧ c.state = .connected ∧
        c.given ≠ twoRecords.plain c.arrived) = true by decide +kernel)
    obtain ⟨hquiet, hstate, hne⟩ := of_decide_eq_true hc
    exact ⟨c, hrun, hquiet, fun h => hne (h.delivered hstate)⟩
  · obtain ⟨c, hrun, hc⟩ := (any_eq_true _ _).1 (show (run (step clearSsl alertAndByte) (new alertAndByte false)
      [.read 4 0 [], .write 0 [], .write 1 []]).any (fun c => c.Happens alertAndByte (.read 4 0 []) ∧
        c.state = .connected ∧ c.read_blocked_ = false ∧ (alertAndByte.stream.drop c.arrived).take 4 = [21, 0, 0, 0] ∧
          c.ssl.rbio = [] ∧ c.ssl.pending = [] ∧ c.ssl.closed = false) = true by decide +kernel)
    obtain ⟨hhappens, hstate, hblocked, hinput, hrbio, hpending, hclosed⟩ := of_decide_eq_true hc
    have hloop : ∀ turns, readLoop clearSsl turns { c.ssl with rbio := c.ssl.rbio ++ [21, 0, 0, 0] } [] false = none := by
      intro turns
      cases turns with
      | zero => rfl
      | succ turns =>
        -- The first turn takes the alert.
        rw [hrbio, nil_append, readLoop, if_neg (cons_ne_nil _ _), Ssl.read, if_neg (not_not.2 hpending),
          if_neg (by rw [hclosed]; exact Bool.false_ne_true)]
        exact readLoop_diverges (s := { c.ssl with rbio := [0], closed := true }) rfl hpending (cons_ne_nil 0 [])
          turns _ _
    exact ⟨c, hrun, hhappens, by simp [step, tcpConnectionReadHandler, hstate, hinput, hblocked, hloop], hloop⟩

end SslConnection

end Whispercast.Net
