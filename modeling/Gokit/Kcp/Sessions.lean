/-
# The session table of a KCP server

`sessions` should hold, for each conversation, the session that was accepted last, as long as
it is not closed.  Two things break this.  A handshake is looked up in the table when it is
read, but accepted later; a second one for the same conversation makes a second session and
overwrites the entry of the first, whose `kcpLoop` runs on.  And `closeSession` deletes by
conversation, so that the death of the first session removes the entry of the second.

Both need a session that is made while an earlier session of its conversation is not over.
Without that the table is right in every state, and this condition is exact: the first
handshake that does not meet it leads to a state that is not right.
-/

import Gokit.Kcp.Server

namespace Gokit.Kcp

open Gokit.Math

variable {Addr : Type}

namespace Session

variable {x y : Session Addr} {dies : Bool}

/-! ## What one session does -/

/-- Nothing is sent before `OnConnect`, only what was sent can make the link dead, and only a
dead link is closed. -/
structure Sound (x : Session Addr) : Prop where
  queued : x.outputCh ≠ [] → x.connected = true
  sent : x.sent = true → x.connected = true
  dead : x.dead = true → x.sent = true
  closed : x.closed = true → x.dead = true
  closer : x.closer ≠ none → x.closed = true

theorem closer_ne_none {closing : Closing} (hcloser : x.closer = some closing) :
    x.closer ≠ none := by
  rw [hcloser]
  exact Option.some_ne_none closing

theorem Sound.connected_of_closer (hsound : x.Sound) (hcloser : x.closer ≠ none) :
    x.connected = true :=
  hsound.sent (hsound.dead (hsound.closed (hsound.closer hcloser)))

theorem Sound.not_gone (hsound : x.Sound) (hconnected : x.connected = false) : ¬ x.Gone := by
  intro hgone
  have hsent := hsound.dead (hsound.closed hgone.1)
  rw [hsound.sent hsent] at hconnected
  cases hconnected

theorem sound_newSession (convId : UInt32) (raddr : Addr) : (newSession convId raddr).Sound where
  queued h := absurd rfl h
  sent h := Bool.noConfusion h
  dead h := Bool.noConfusion h
  closed h := Bool.noConfusion h
  closer h := absurd rfl h

/-- What the table is about stays as it is. -/
structure Keeps (x y : Session Addr) : Prop where
  convId : y.convId = x.convId
  gone : y.Gone ↔ x.Gone
  returned : x.loop = .returned → y.loop = .returned
  sound : x.Sound → y.Sound

theorem Keeps.over (hkeeps : Keeps x y) (hover : x.Over) : y.Over :=
  ⟨hkeeps.gone.mpr hover.1, hkeeps.returned hover.2⟩

theorem keeps_connect : Keeps x { x with connected := true } where
  convId := rfl
  gone := Iff.rfl
  returned := id
  sound h := { h with queued := fun _ => rfl, sent := fun _ => rfl }

/-- The steps that a session takes by itself, and those of its callers. -/
structure Works (x y : Session Addr) : Prop extends Keeps x y where
  connected : y.connected = x.connected

theorem Works.refl (x : Session Addr) : Works x x where
  convId := rfl
  gone := Iff.rfl
  returned := id
  sound := id
  connected := rfl

theorem Works.trans {z : Session Addr} (hxy : Works x y) (hyz : Works y z) : Works x z where
  convId := hyz.convId.trans hxy.convId
  gone := hyz.gone.trans hxy.gone
  returned := hyz.returned ∘ hxy.returned
  sound := hyz.sound ∘ hxy.sound
  connected := hyz.connected.trans hxy.connected

theorem works_flush : Works x (x.flush dies) where
  convId := rfl
  connected := rfl
  gone := Iff.rfl
  returned := id
  sound h :=
    { h with
      dead := by
        intro hdead
        rcases (Bool.or_eq_true _ _).mp hdead with hdead | hdies
        · exact h.dead hdead
        · exact ((Bool.and_eq_true _ _).mp hdies).1
      closed := fun hclosed => (Bool.or_eq_true _ _).mpr (Or.inl (h.closed hclosed)) }

/-- A loop that has not returned goes on. -/
theorem Works.setLoop (hworks : Works x y) (hloop : x.loop ≠ .returned) (loop : Loop) :
    Works x { y with loop } where
  convId := hworks.convId
  gone := hworks.gone
  returned h := absurd h hloop
  sound h := { hworks.sound h with }
  connected := hworks.connected

/-- What is on the channels does not matter, as long as nothing is sent before `OnConnect`. -/
theorem works_channels (inputCh : List (Packet Addr)) (remoteAddr : Addr)
    (outputCh : List (List UInt8)) (hqueued : x.Sound → outputCh ≠ [] → x.connected = true) :
    Works x { x with inputCh, remoteAddr, outputCh } where
  convId := rfl
  gone := Iff.rfl
  returned := id
  sound h := { h with queued := hqueued h }
  connected := rfl

theorem works_pushInput (packet : Packet Addr) : Works x (x.pushInput packet) := by
  unfold pushInput
  split_ifs with hroom
  · exact works_channels _ x.remoteAddr x.outputCh Sound.queued
  · exact .refl x

theorem works_pushOutput (hconnected : x.connected = true) (data : List UInt8) :
    Works x (x.pushOutput data) := by
  unfold pushOutput
  split_ifs with hroom
  · exact works_channels x.inputCh x.remoteAddr _ fun _ _ => hconnected
  · exact .refl x

theorem works_recvInput : Works x (x.recvInput dies) := by
  unfold recvInput
  split
  next packet rest _ =>
      exact (works_channels rest packet.raddr x.outputCh Sound.queued).trans works_flush
  · exact .refl x

theorem works_recvOutput (hloop : x.loop ≠ .returned) : Works x (x.recvOutput dies) := by
  unfold recvOutput
  split
  next data rest hout =>
      refine .trans ?_ works_flush
      exact
        { convId := rfl
          connected := rfl
          gone := Iff.rfl
          returned := fun h => absurd h hloop
          sound := fun h =>
            have hconnected := h.queued (hout ▸ List.cons_ne_nil data rest)
            { h with
              queued := fun _ => hconnected
              sent := fun _ => hconnected
              dead := fun _ => rfl } }
  · exact .refl x

/-- The one that sets `closed` has still to execute `closeSession`. -/
theorem works_checkDeadLink : Works x x.checkDeadLink := by
  unfold checkDeadLink
  split_ifs with hwins
  · exact
      { convId := rfl
        connected := rfl
        gone := iff_of_false (fun h => Option.some_ne_none _ h.2)
          (fun h => Bool.false_ne_true (hwins.2.symm.trans h.1))
        returned := id
        sound := fun h => { h with closed := fun _ => hwins.1, closer := fun _ => rfl } }
  · exact .refl x

theorem works_closer {before : Closing} (hcloser : x.closer = some before) (cancelled : Bool)
    (after : Closing) : Works x { x with cancelled, closer := some after } where
  convId := rfl
  gone := iff_of_false (fun h => Option.some_ne_none _ h.2)
    (fun h => closer_ne_none hcloser h.2)
  returned := id
  sound h := { h with closer := fun _ => h.closer (closer_ne_none hcloser) }
  connected := rfl

theorem Sound.finishClose (hsound : x.Sound) : x.finishClose.Sound :=
  { hsound with closer := fun h => absurd rfl h }

end Session

namespace Server

variable {s : Server Addr} {m n : SessId}

/-! ## Consistency -/

/-- At most one session of a conversation has a running `kcpLoop`; the entry of a conversation
is the session that was made last for it, and has not been closed; and a session that is about
to execute `closeSession` finds no entry of another session. -/
structure Consistent (s : Server Addr) : Prop where
  single : ∀ m n, s.Running m → s.Running n → (s.sess m).convId = (s.sess n).convId → m = n
  latest : ∀ convId n, s.sessions convId = some n → n < s.made ∧ (s.sess n).convId = convId ∧
    ¬ (s.sess n).Gone ∧ ∀ m, m < s.made → (s.sess m).convId = convId → m ≤ n
  own : ∀ m n, (s.sess n).closer = some .closeSession →
    s.sessions (s.sess n).convId = some m → m = n

/-- When a session is made, the earlier sessions of its conversation are over. -/
def FreshConv (s : Server Addr) : Action Addr → Prop
  | .handshake convId ok =>
    ok = true → convId ≠ 0 → ∀ m, m < s.made → (s.sess m).convId = convId → (s.sess m).Over
  | _ => True

/-- The sessions of a conversation come one after the other, and the last one is in the table
from `store` on until it is closed. -/
structure Tidy (s : Server Addr) : Prop where
  sound : ∀ n, (s.sess n).Sound
  made : ∀ n, (s.sess n).connected = true → n < s.made
  accepting : ∀ n, s.acceptor = .storing n ∨ s.acceptor = .connecting n →
    n < s.made ∧ (s.sess n).connected = false
  entry : ∀ convId n, s.sessions convId = some n →
    n < s.made ∧ (s.sess n).convId = convId ∧ ¬ (s.sess n).Gone
  older : ∀ m n, m < n → n < s.made → (s.sess m).convId = (s.sess n).convId → (s.sess m).Over
  present : ∀ n, n < s.made → s.acceptor ≠ .storing n → ¬ (s.sess n).Gone →
    s.sessions (s.sess n).convId = some n

theorem tidy_init (raddr : Addr) :
    Tidy ({ sess := fun _ => .newSession 0 raddr } : Server Addr) where
  sound _ := Session.sound_newSession 0 raddr
  made _ h := Bool.noConfusion h
  accepting _ h := by rcases h with h | h <;> cases h
  entry _ _ h := absurd h.symm (Option.some_ne_none _)
  older _ _ _ h := absurd h (Nat.not_lt_zero _)
  present _ h := absurd h (Nat.not_lt_zero _)

/-- Two sessions of one conversation that are not closed are the same. -/
theorem Tidy.eq_of_not_gone (htidy : Tidy s) (hm : m < s.made) (hn : n < s.made)
    (hconv : (s.sess m).convId = (s.sess n).convId) (hgonem : ¬ (s.sess m).Gone)
    (hgonen : ¬ (s.sess n).Gone) : m = n := by
  rcases Nat.lt_trichotomy m n with hlt | heq | hgt
  · exact absurd (htidy.older m n hlt hn hconv).1 hgonem
  · exact heq
  · exact absurd (htidy.older n m hgt hm hconv.symm).1 hgonen

/-- **A tidy server is consistent.** -/
theorem Tidy.consistent (htidy : Tidy s) : Consistent s where
  single := by
    intro m n hm hn hconv
    rcases Nat.lt_trichotomy m n with hlt | heq | hgt
    · exact absurd (htidy.older m n hlt hn.1 hconv).2 hm.2
    · exact heq
    · exact absurd (htidy.older n m hgt hm.1 hconv.symm).2 hn.2
  latest := by
    intro convId n hentry
    obtain ⟨hn, hconv, hgone⟩ := htidy.entry convId n hentry
    refine ⟨hn, hconv, hgone, ?_⟩
    intro m hm hconvm
    by_contra hlt
    exact hgone (htidy.older n m (Nat.lt_of_not_le hlt) hm (hconv.trans hconvm.symm)).1
  own := by
    intro m n hcloser hentry
    obtain ⟨hm, hconv, hgone⟩ := htidy.entry _ m hentry
    have hcloser := Session.closer_ne_none hcloser
    have hn := htidy.made n ((htidy.sound n).connected_of_closer hcloser)
    exact htidy.eq_of_not_gone hm hn hconv hgone fun h => hcloser h.2

/-! ## Steps -/

/-- What is neither made nor closed nor stored. -/
theorem Tidy.of_keeps (htidy : Tidy s) {sess : SessId → Session Addr} {acceptor : Acceptor Addr}
    (hkeeps : ∀ n, (s.sess n).Keeps (sess n)) (hmade : ∀ n, (sess n).connected = true → n < s.made)
    (haccepting : ∀ n, acceptor = .storing n ∨ acceptor = .connecting n →
      n < s.made ∧ (sess n).connected = false)
    (hstoring : ∀ n, s.acceptor = .storing n → acceptor = .storing n)
    (acceptCh : List (Packet Addr)) (reader : Reader Addr) (cancelled : Bool) :
    Tidy { s with sess, acceptor, acceptCh, reader, cancelled } where
  sound n := (hkeeps n).sound (htidy.sound n)
  made := hmade
  accepting := haccepting
  entry convId n hentry := by
    obtain ⟨hn, hconv, hgone⟩ := htidy.entry convId n hentry
    exact ⟨hn, (hkeeps n).convId.trans hconv, mt (hkeeps n).gone.mp hgone⟩
  older m n hlt hn hconv := by
    have hbefore : (s.sess m).convId = (s.sess n).convId :=
      (hkeeps m).convId.symm.trans (hconv.trans (hkeeps n).convId)
    exact (hkeeps m).over (htidy.older m n hlt hn hbefore)
  present n hn hacceptor hgone := by
    show s.sessions (sess n).convId = some n
    rw [(hkeeps n).convId]
    exact htidy.present n hn (mt (hstoring n) hacceptor) (mt (hkeeps n).gone.mpr hgone)

/-- Sessions work on their own. -/
theorem Tidy.of_works (htidy : Tidy s) {sess : SessId → Session Addr}
    (hworks : ∀ n, (s.sess n).Works (sess n)) (acceptCh : List (Packet Addr)) (reader : Reader Addr)
    (cancelled : Bool) : Tidy { s with sess, acceptCh, reader, cancelled } := by
  refine htidy.of_keeps (fun n => (hworks n).toKeeps) ?_ ?_ (fun _ => id) acceptCh reader cancelled
  · intro n hconnected
    exact htidy.made n ((hworks n).connected.symm.trans hconnected)
  · intro n haccepting
    obtain ⟨hn, hconnected⟩ := htidy.accepting n haccepting
    exact ⟨hn, (hworks n).connected.trans hconnected⟩

theorem works_update {x : Session Addr} (hworks : (s.sess n).Works x) (m : SessId) :
    (s.sess m).Works (Function.update s.sess n x m) := by
  by_cases heq : m = n
  · subst heq
    rw [Function.update_self]
    exact hworks
  · rw [Function.update_of_ne heq]
    exact .refl _

theorem Tidy.setSess (htidy : Tidy s) {x : Session Addr} (hworks : (s.sess n).Works x) :
    Tidy (s.setSess n x) :=
  htidy.of_works (works_update hworks) s.acceptCh s.reader s.cancelled

/-- The sessions wait. -/
theorem Tidy.frame (htidy : Tidy s) (acceptCh : List (Packet Addr)) (reader : Reader Addr)
    (cancelled : Bool) : Tidy { s with acceptCh, reader, cancelled } :=
  htidy.of_works (fun _ => .refl _) acceptCh reader cancelled

theorem Tidy.onRead (htidy : Tidy s) (parseConvId : List UInt8 → UInt32 × List UInt8)
    (packet : Packet Addr) : Tidy (s.onRead parseConvId packet) := by
  unfold Server.onRead
  split_ifs
  · exact htidy
  · dsimp only
    split_ifs
    · exact htidy
    · exact htidy.frame s.acceptCh _ s.cancelled
    · exact htidy.frame s.acceptCh _ s.cancelled

theorem Tidy.deliver (htidy : Tidy s) : Tidy s.deliver := by
  unfold Server.deliver
  split
  next packet n _ =>
      exact htidy.of_works (works_update (Session.works_pushInput packet)) s.acceptCh .reading
        s.cancelled
  · split_ifs
    · exact htidy.frame _ .reading s.cancelled
    · exact htidy.frame s.acceptCh .reading s.cancelled
  · exact htidy

/-- `acceptLoop` moves without a session. -/
theorem Tidy.setAcceptor (htidy : Tidy s) {acceptor : Acceptor Addr}
    (hbefore : ∀ n, s.acceptor ≠ .storing n)
    (hafter : ∀ n, ¬ (acceptor = .storing n ∨ acceptor = .connecting n))
    (acceptCh : List (Packet Addr)) : Tidy { s with acceptor, acceptCh } :=
  htidy.of_keeps (fun n => (Session.Works.refl (s.sess n)).toKeeps) htidy.made
    (fun n h => absurd h (hafter n)) (fun n h => absurd h (hbefore n)) acceptCh s.reader s.cancelled

theorem Tidy.recvTask (htidy : Tidy s) (hselecting : s.acceptor = .selecting) :
    Tidy s.recvTask := by
  unfold Server.recvTask
  split
  next task rest _ =>
      refine htidy.setAcceptor ?_ ?_ rest
      · intro n h
        rw [hselecting] at h
        cases h
      · rintro n (h | h) <;> cases h
  · exact htidy

/-- **A session is made** when the earlier ones of its conversation are over. -/
theorem Tidy.newSession (htidy : Tidy s) (hacceptor : ∀ n, s.acceptor ≠ .storing n)
    (convId : UInt32) (raddr : Addr)
    (hfresh : ∀ m, m < s.made → (s.sess m).convId = convId → (s.sess m).Over) :
    Tidy { s.setSess s.made (.newSession convId raddr) with
      made := s.made + 1, acceptor := .storing s.made } := by
  have hnew : Function.update s.sess s.made (.newSession convId raddr) s.made =
      .newSession convId raddr := Function.update_self ..
  have hold : ∀ m, m < s.made →
      Function.update s.sess s.made (.newSession convId raddr) m = s.sess m :=
    fun m hm => Function.update_of_ne (Nat.ne_of_lt hm) ..
  refine ⟨?_, ?_, ?_, ?_, ?_, ?_⟩
  · exact (Function.forall_update_iff s.sess fun _ x => x.Sound).mpr
      ⟨Session.sound_newSession convId raddr, fun n _ => htidy.sound n⟩
  · exact (Function.forall_update_iff s.sess fun n x => x.connected = true → n < s.made + 1).mpr
      ⟨fun _ => Nat.lt_succ_self _, fun n _ h => Nat.lt_succ_of_lt (htidy.made n h)⟩
  · rintro n (h | h)
    · cases h
      exact ⟨Nat.lt_succ_self _, congrArg Session.connected hnew⟩
    · cases h
  · intro conv n hentry
    obtain ⟨hn, hconv, hgone⟩ := htidy.entry conv n hentry
    show n < s.made + 1 ∧ (Function.update s.sess s.made _ n).convId = conv ∧
      ¬ (Function.update s.sess s.made _ n).Gone
    rw [hold n hn]
    exact ⟨Nat.lt_succ_of_lt hn, hconv, hgone⟩
  · intro m n hlt hn hconv
    have hm : m < s.made := Nat.lt_of_lt_of_le hlt (Nat.le_of_lt_succ hn)
    change (Function.update s.sess s.made _ m).convId = (Function.update s.sess s.made _ n).convId
      at hconv
    show (Function.update s.sess s.made _ m).Over
    rw [hold m hm] at hconv ⊢
    rcases Nat.lt_succ_iff_lt_or_eq.mp hn with hn | rfl
    · rw [hold n hn] at hconv
      exact htidy.older m n hlt hn hconv
    · rw [hnew] at hconv
      exact hfresh m hm hconv
  · intro n hn hstoring hgone
    have hne : n ≠ s.made := fun heq => hstoring (heq ▸ rfl)
    have hn : n < s.made := Nat.lt_of_le_of_ne (Nat.le_of_lt_succ hn) hne
    change ¬ (Function.update s.sess s.made _ n).Gone at hgone
    show s.sessions (Function.update s.sess s.made _ n).convId = some n
    rw [hold n hn] at hgone ⊢
    exact htidy.present n hn (hacceptor n) hgone

theorem Tidy.handshake (htidy : Tidy s) {convId : UInt32} {ok : Bool}
    (hfresh : FreshConv s (.handshake convId ok)) : Tidy (s.handshake convId ok) := by
  unfold Server.handshake
  split
  next task htask =>
      have hacceptor : ∀ n, s.acceptor ≠ .storing n := by
        intro n h
        rw [htask] at h
        cases h
      split_ifs with haccepts
      · exact htidy.newSession hacceptor convId task.raddr (hfresh haccepts.1 haccepts.2)
      · refine htidy.setAcceptor hacceptor ?_ s.acceptCh
        rintro n (h | h) <;> cases h
  · exact htidy

/-- The session that was made is put into the table. -/
theorem Tidy.store (htidy : Tidy s) : Tidy s.store := by
  unfold Server.store
  split
  next n hstoring =>
      obtain ⟨hn, hconnected⟩ := htidy.accepting n (Or.inl hstoring)
      have hgone := (htidy.sound n).not_gone hconnected
      refine { htidy with accepting := ?_, entry := ?_, present := ?_ }
      · rintro m (h | h)
        · cases h
        · cases h
          exact ⟨hn, hconnected⟩
      · intro convId m hentry
        change Function.update s.sessions (s.sess n).convId (some n) convId = some m at hentry
        by_cases heq : convId = (s.sess n).convId
        · subst heq
          rw [Function.update_self] at hentry
          cases hentry
          exact ⟨hn, rfl, hgone⟩
        · rw [Function.update_of_ne heq] at hentry
          exact htidy.entry convId m hentry
      · intro m hm _ hgonem
        show Function.update s.sessions (s.sess n).convId (some n) (s.sess m).convId = some m
        by_cases heq : (s.sess m).convId = (s.sess n).convId
        · rw [heq, Function.update_self]
          exact congrArg some (htidy.eq_of_not_gone hn hm heq.symm hgone hgonem)
        · rw [Function.update_of_ne heq]
          refine htidy.present m hm ?_ hgonem
          intro h
          rw [hstoring] at h
          cases h
          exact heq rfl
  · exact htidy

theorem Tidy.onConnect (htidy : Tidy s) : Tidy s.onConnect := by
  unfold Server.onConnect
  split
  next n hconnecting =>
      obtain ⟨hn, _⟩ := htidy.accepting n (Or.inr hconnecting)
      refine htidy.of_keeps ?_ ?_ ?_ ?_ s.acceptCh s.reader s.cancelled
      · exact (Function.forall_update_iff s.sess fun m x => (s.sess m).Keeps x).mpr
          ⟨Session.keeps_connect, fun m _ => (Session.Works.refl (s.sess m)).toKeeps⟩
      · exact (Function.forall_update_iff s.sess fun m x => x.connected = true → m < s.made).mpr
          ⟨fun _ => hn, fun m _ => htidy.made m⟩
      · rintro m (h | h) <;> cases h
      · intro m h
        rw [hconnecting] at h
        cases h
  · exact htidy

/-- **A session is closed.** The entry that it removes is its own. -/
theorem Tidy.closeSession (htidy : Tidy s) (hcloser : (s.sess n).closer ≠ none) :
    Tidy (s.closeSession n) := by
  have hn := htidy.made n ((htidy.sound n).connected_of_closer hcloser)
  have hgone : ¬ (s.sess n).Gone := fun h => hcloser h.2
  have hclosed : ((s.closeSession n).sess n).Gone := by
    rw [closeSession_sess_self]
    exact ⟨(htidy.sound n).closer hcloser, rfl⟩
  refine ⟨?_, ?_, ?_, ?_, ?_, ?_⟩
  · exact (Function.forall_update_iff s.sess fun _ x => x.Sound).mpr
      ⟨(htidy.sound n).finishClose, fun m _ => htidy.sound m⟩
  · intro m h
    rw [closeSession_connected] at h
    exact htidy.made m h
  · intro m h
    rw [closeSession_connected]
    exact htidy.accepting m h
  · intro convId m hentry
    have hne : convId ≠ (s.sess n).convId := by
      rintro rfl
      rw [closeSession_sessions_self] at hentry
      cases hentry
    rw [closeSession_sessions_of_ne s hne] at hentry
    obtain ⟨hm, hconv, hgonem⟩ := htidy.entry convId m hentry
    have hmn : m ≠ n := fun heq => hne (heq ▸ hconv.symm)
    rw [closeSession_sess_of_ne s hmn]
    exact ⟨hm, hconv, hgonem⟩
  · intro m k hlt hk hconv
    rw [closeSession_convId, closeSession_convId] at hconv
    have hover := htidy.older m k hlt hk hconv
    have hmn : m ≠ n := fun heq => hgone (heq ▸ hover.1)
    rw [closeSession_sess_of_ne s hmn]
    exact hover
  · intro m hm hacceptor hgonem
    have hmn : m ≠ n := fun heq => hgonem (heq ▸ hclosed)
    rw [closeSession_sess_of_ne s hmn] at hgonem
    have hne : (s.sess m).convId ≠ (s.sess n).convId :=
      fun heq => hmn (htidy.eq_of_not_gone hm hn heq hgonem hgone)
    rw [closeSession_convId, closeSession_sessions_of_ne s hne]
    exact htidy.present m hm hacceptor hgonem

/-- A handshake that leaves the table consistent meets the condition. -/
theorem Tidy.freshConv (htidy : Tidy s) {task : Packet Addr}
    (htask : s.acceptor = .handshaking task) {convId : UInt32} {ok : Bool}
    (hconsistent : Consistent (s.handshake convId ok)) : FreshConv s (.handshake convId ok) := by
  intro hok hconv m hm hconvm
  have hnext : s.handshake convId ok =
      { s.setSess s.made (.newSession convId task.raddr) with
        made := s.made + 1, acceptor := .storing s.made } := by
    unfold Server.handshake
    rw [htask]
    exact if_pos ⟨hok, hconv⟩
  rw [hnext] at hconsistent
  have hnew : Function.update s.sess s.made (.newSession convId task.raddr) s.made =
      .newSession convId task.raddr := Function.update_self ..
  have hold : Function.update s.sess s.made (.newSession convId task.raddr) m = s.sess m :=
    Function.update_of_ne (Nat.ne_of_lt hm) ..
  constructor
  · -- otherwise its entry is still there, and it is not the latest any more
    by_contra hgone
    have hentry : s.sessions convId = some m := by
      rw [← hconvm]
      refine htidy.present m hm ?_ hgone
      intro h
      rw [htask] at h
      cases h
    have hle := (hconsistent.latest convId m hentry).2.2.2 s.made (Nat.lt_succ_self _)
      (congrArg Session.convId hnew)
    exact Nat.not_le_of_lt hm hle
  · -- otherwise two loops are running
    by_contra hloop
    refine Nat.ne_of_lt hm (hconsistent.single m s.made ⟨Nat.lt_succ_of_lt hm, ?_⟩
      ⟨Nat.lt_succ_self _, ?_⟩ ?_)
    · show (Function.update s.sess s.made _ m).loop ≠ .returned
      rw [hold]
      exact hloop
    · show (Function.update s.sess s.made _ s.made).loop ≠ .returned
      rw [hnew]
      exact Loop.noConfusion
    · show (Function.update s.sess s.made _ m).convId =
        (Function.update s.sess s.made _ s.made).convId
      rw [hold, hnew]
      exact hconvm

/-! ## Runs -/

theorem Selecting.not_returned (hselecting : s.Selecting n) : (s.sess n).loop ≠ .returned := by
  rw [hselecting.2]
  exact Loop.noConfusion

section Runs

variable [Inhabited Addr] {parseConvId : List UInt8 → UInt32 × List UInt8} {a : Action Addr}

/-- **What one step keeps.** -/
theorem Tidy.step (htidy : Tidy s) (henabled : (system parseConvId).Enabled s a)
    (hfresh : FreshConv s a) : Tidy ((system parseConvId).next s a) := by
  cases a with
  | read packet => exact htidy.onRead parseConvId packet
  | deliver => exact htidy.deliver
  | readClosed => exact htidy.frame s.acceptCh .returned true
  | recvTask => exact htidy.recvTask henabled.1
  | handshake convId ok => exact htidy.handshake hfresh
  | store => exact htidy.store
  | onConnect => exact htidy.onConnect
  | acceptDone =>
    refine htidy.setAcceptor ?_ ?_ s.acceptCh
    · intro n h
      rw [henabled.1] at h
      cases h
    · rintro n (h | h) <;> cases h
  | checkDeadLink n => exact htidy.setSess Session.works_checkDeadLink
  | send n data => exact htidy.setSess (Session.works_pushOutput henabled.1 data)
  | recvInput n dies => exact htidy.setSess Session.works_recvInput
  | recvOutput n dies => exact htidy.setSess (Session.works_recvOutput henabled.1.not_returned)
  | update n dies =>
    exact htidy.setSess (Session.works_flush.setLoop henabled.not_returned .checking)
  | check n =>
    refine htidy.setSess (Session.works_checkDeadLink.setLoop ?_ _)
    rw [henabled.2]
    exact Loop.noConfusion
  | ctxDone n dies =>
    exact htidy.setSess (Session.works_flush.setLoop henabled.1.not_returned .returned)
  | onClose n => exact htidy.setSess (Session.works_closer henabled _ .cancel)
  | cancel n => exact htidy.setSess (Session.works_closer henabled true _)
  | closeSession n => exact htidy.closeSession (Session.closer_ne_none henabled)
  | close => exact htidy.frame s.acceptCh s.reader true

theorem tidy_of_run (hrun : (system parseConvId).Run FreshConv s) : Tidy s :=
  hrun.invariant (tidy_init default) fun _ _ htidy henabled hfresh => htidy.step henabled hfresh

/-- **The table is consistent** in every run in which a session is made only when the earlier
sessions of its conversation are over. The next step keeps it so exactly if it meets this too. -/
theorem run_consistent (hrun : (system parseConvId).Run FreshConv s) :
    Consistent s ∧ ∀ a, (system parseConvId).Enabled s a →
      (Consistent ((system parseConvId).next s a) ↔ FreshConv s a) := by
  have htidy := tidy_of_run hrun
  refine ⟨htidy.consistent, ?_⟩
  intro a henabled
  constructor
  · intro hconsistent
    cases a with
    | handshake convId ok =>
      obtain ⟨task, htask⟩ := henabled
      exact htidy.freshConv htask hconsistent
    | _ => trivial
  · intro hfresh
    exact (htidy.step henabled hfresh).consistent

end Runs

/-- A `ParseConvId` that takes the first byte. -/
def firstByte : List UInt8 → UInt32 × List UInt8
  | [] => (0, [])
  | byte :: rest => (byte.toUInt32, rest)

/-- A datagram of conversation 7. -/
def hello : Packet Nat := { data := [7, 1], raddr := 0 }

/-- What is left of it when the conversation has been parsed. -/
def task : Packet Nat := { hello with data := [1] }

/-- A session is made, its link dies, and it is closed. -/
def deadLink : List (Action Nat) :=
  [.read hello, .deliver, .recvTask, .handshake 7 true, .store, .onConnect, .send 0 [1],
    .recvOutput 0 false, .check 0, .update 0 true, .check 0, .onClose 0, .cancel 0,
    .closeSession 0]

/-- The client comes back. -/
def reconnect : List (Action Nat) :=
  deadLink ++ [.read hello, .deliver, .recvTask, .handshake 7 true, .store, .onConnect]

/-- The theorem for a client that comes back after its session was closed. -/
theorem run_consistent_reconnect :
    ∃ s : Server Nat, (s.sess 0).Over ∧ s.sessions 7 = some 1 ∧ s.Running 1 ∧ Consistent s := by
  have hadmits : (system firstByte).Admits FreshConv reconnect (system firstByte).init :=
    ⟨rfl, trivial, ⟨task, none, rfl⟩, trivial, ⟨rfl, List.cons_ne_nil _ _⟩, trivial, ⟨task, rfl⟩,
      fun _ _ m hm => absurd hm (Nat.not_lt_zero m), ⟨0, rfl⟩, trivial, ⟨0, rfl⟩, trivial,
      ⟨rfl, List.cons_ne_nil _ _⟩, trivial, ⟨⟨Nat.one_pos, rfl⟩, List.cons_ne_nil _ _⟩, trivial,
      ⟨Nat.one_pos, rfl⟩, trivial, ⟨Nat.one_pos, rfl⟩, trivial, ⟨Nat.one_pos, rfl⟩, trivial,
      rfl, trivial, rfl, trivial, rfl, trivial,
      rfl, trivial, ⟨task, none, rfl⟩, trivial, ⟨rfl, List.cons_ne_nil _ _⟩, trivial, ⟨task, rfl⟩,
      fun _ _ m hm _ => by
        obtain rfl := Nat.lt_one_iff.mp hm
        exact ⟨⟨rfl, rfl⟩, rfl⟩,
      ⟨1, rfl⟩, trivial, ⟨1, rfl⟩, trivial, trivial⟩
  have hrun := System.Run.of_admits .start hadmits
  exact ⟨_, ⟨⟨rfl, rfl⟩, rfl⟩, rfl, ⟨Nat.one_lt_two, Loop.noConfusion⟩, (run_consistent hrun).1⟩

/-! ## Two handshakes of one conversation -/

/-- The first datagram of a client arrives twice before it is accepted. Then the link of the
first session dies. -/
def twice : List (Action Nat) :=
  [.read hello, .deliver, .read hello, .deliver,
    .recvTask, .handshake 7 true, .store, .onConnect,
    .recvTask, .handshake 7 true, .store, .onConnect,
    .send 0 [1], .recvOutput 0 false, .check 0, .update 0 true, .check 0, .onClose 0, .cancel 0]

/-- **Two sessions of one conversation are running, and when the first is closed it removes the
entry of the second**, which is not closed. -/
theorem closeSession_removes_other : ∃ s : Server Nat,
    (system firstByte).Run (fun _ _ => True) s ∧ s.Running 0 ∧ s.Running 1 ∧
    (s.sess 0).convId = 7 ∧ (s.sess 1).convId = 7 ∧ s.sessions 7 = some 1 ∧
    (s.sess 1).closed = false ∧ (system firstByte).Enabled s (.closeSession 0) ∧
    ((system firstByte).next s (.closeSession 0)).sessions 7 = none := by
  have hadmits : (system firstByte).Admits (fun _ _ => True) twice (system firstByte).init :=
    ⟨rfl, trivial, ⟨task, none, rfl⟩, trivial, rfl, trivial, ⟨task, none, rfl⟩, trivial,
      ⟨rfl, List.cons_ne_nil _ _⟩, trivial, ⟨task, rfl⟩, trivial, ⟨0, rfl⟩, trivial,
      ⟨0, rfl⟩, trivial, ⟨rfl, List.cons_ne_nil _ _⟩, trivial, ⟨task, rfl⟩, trivial,
      ⟨1, rfl⟩, trivial, ⟨1, rfl⟩, trivial, ⟨rfl, List.cons_ne_nil _ _⟩, trivial,
      ⟨⟨Nat.two_pos, rfl⟩, List.cons_ne_nil _ _⟩, trivial,
      ⟨Nat.two_pos, rfl⟩, trivial, ⟨Nat.two_pos, rfl⟩, trivial, ⟨Nat.two_pos, rfl⟩, trivial,
      rfl, trivial, rfl, trivial, trivial⟩
  exact ⟨(system firstByte).after twice (system firstByte).init, .of_admits .start hadmits,
    ⟨Nat.two_pos, Loop.noConfusion⟩, ⟨Nat.one_lt_two, Loop.noConfusion⟩, rfl, rfl, rfl, rfl, rfl,
    rfl⟩

end Server

end Gokit.Kcp
