/-
# Every asynchronous call is settled at most once

An asynchronous call that is registered is like a token.  It lies in `waitRsps`,
or one goroutine holds it, a receiver or `processTimeout`, or it has been spent
on a result.  Every step hands a token on or leaves it where it is; none is lost
and none is copied.  This module proves that law of conservation, on which the
rest depends: a call gets at most one result, and as long as it has none there is
exactly one place where it is.

The second subject is the deadline.  A call that lies in `waitRsps` and whose
`asyncCallWait` is through is found by the sweep of its deadline.  During a sweep
the deadlines gone through are still in the tree, so what has to be known of them
is that no call with such a deadline lies in `waitRsps` any more.

Numbers may be reused, but not while a call with the number is pending.
-/

import Gokit.Rpc.Timeouts

namespace Gokit.Rpc

open Gokit.Math

/-! ## Where a call is -/

namespace Pc

def isRegistered : Pc → Bool
  | .idle | .begun | .written | .failed | .skipped => false
  | _ => true

/-- `asyncCallWait` has entered the deadline, or found that there is none. -/
def pastDeadline : Pc → Bool
  | .inserted | .posting | .returned => true
  | _ => false

/-- `Invoke` is under way or may still be given a result. -/
def isOpen : Pc → Bool
  | .idle | .failed | .skipped | .done _ => false
  | _ => true

/-- `syncCallWait` has not left `waitRsps` again. -/
def inSyncWait : Pc → Bool
  | .waiting | .givingUp | .leaving _ => true
  | _ => false

/-- Only a call of the right kind gets to a place. -/
def suits : Pc → CallKind → Prop
  | .registered, kind | .inserted, kind | .posting, kind | .returned, kind => kind = .async
  | .waiting, kind | .givingUp, kind | .leaving _, kind | .closing _, kind
  | .done _, kind => kind = .sync
  | .skipped, kind => kind = .asyncNoResp
  | _, _ => True

variable {pc : Pc} {kind : CallKind}

theorem kind_async_of_suits (hsuits : pc.suits kind) (hregistered : pc.isRegistered = true)
    (hkind : kind ≠ .sync) : kind = .async := by
  cases pc <;> simp_all [suits, isRegistered]

theorem isOpen_of_suits (hsuits : pc.suits .async) (hregistered : pc.isRegistered = true) :
    pc.isOpen = true := by
  cases pc <;> simp_all [suits, isRegistered, isOpen]

theorem isOpen_of_inSyncWait (hwait : pc.inSyncWait = true) : pc.isOpen = true := by
  cases pc <;> simp_all [inSyncWait, isOpen]

end Pc

namespace Client

/-- The call lies in `waitRsps`. -/
def InMap (st : Client) (c : CallId) : Prop := (st.waitRsps (st.seq c)).map CallInfo.owner = some c

instance (st : Client) (c : CallId) : Decidable (st.InMap c) :=
  inferInstanceAs (Decidable (_ = _))

/-- How many goroutines hold the call and are about to send it a result. -/
def holders (st : Client) (c : CallId) : Nat :=
  (st.tidying.map (·.info.owner)).count c + (st.delivering.map (·.info.owner)).count c +
    (st.proc.callInfos.map (·.owner)).count c

/-- The tokens of a call, wherever they are. -/
def tokens (st : Client) (c : CallId) : Nat :=
  (if st.InMap c then 1 else 0) + st.holders c + (st.results c).length

/-- The call has its number and no result yet. -/
def Pending (st : Client) (c : CallId) : Prop := (st.pc c).isOpen = true ∧ st.results c = []

/-- No number is reused while a call with it is pending. -/
def NoReuse (st : Client) : Action → Prop
  | .begin _ => ∀ d, st.Pending d → st.seq d ≠ st.genMsgId + 1
  | _ => True

/-- What an entry of `waitRsps`, or a copy of it, says of its owner. -/
structure Valid (opts : CallId → CallOption) (pcs : CallId → Pc) (deadlines : CallId → Int)
    (info : CallInfo) : Prop where
  registered : (pcs info.owner).isRegistered = true
  sync : info.sync = true ↔ (opts info.owner).kind = .sync
  expireAt : info.sync = false → info.expireAt = deadlines info.owner
  passThrough : info.sync = false → info.passThrough = (opts info.owner).passThrough

/-- The call can be found by the sweep of its deadline. -/
def Swept (opts : CallId → CallOption) (st : Client) (c : CallId) : Prop :=
  (opts c).kind = .async ∧ st.InMap c ∧ 0 < st.expireAt c ∧ (st.pc c).pastDeadline = true

/-- What holds of the tables in every state. -/
structure Books (opts : CallId → CallOption) (st : Client) : Prop where
  suits : ∀ c, (st.pc c).suits (opts c).kind
  entry : ∀ x info, st.waitRsps x = some info →
    st.seq info.owner = x ∧ Valid opts st.pc st.expireAt info ∧
      (info.sync = true → (st.pc info.owner).inSyncWait = true)
  tidying : ∀ held ∈ st.tidying, Valid opts st.pc st.expireAt held.info ∧ held.info.sync = false ∧
    st.seq held.info.owner = held.msg.seq
  delivering : ∀ held ∈ st.delivering,
    Valid opts st.pc st.expireAt held.info ∧ held.info.sync = false
  taken : ∀ info ∈ st.proc.callInfos, Valid opts st.pc st.expireAt info
  token : ∀ c, (opts c).kind = .async →
    st.tokens c = if (st.pc c).isRegistered then 1 else 0
  result : ∀ c, ∀ result ∈ st.results c,
    (opts c).kind = .async ∧ result.passThrough = (opts c).passThrough
  seqs : ∀ c d, st.Pending c → st.Pending d → st.seq c = st.seq d → c = d
  timeout : ∀ c, (opts c).kind = .async → (st.pc c).isRegistered = true →
    (opts c).timeout.isSome = true → 0 < st.expireAt c
  deadline : ∀ c, Swept opts st c → st.timeouts.Has (st.expireAt c) (st.seq c)
  swept : ∀ key ∈ st.proc.swept, ∀ c, Swept opts st c → st.expireAt c ≠ key
  off : st.runTimeout = false → st.proc = .off

variable {opts : CallId → CallOption} {st : Client}

theorem books_init : Books opts {} where
  suits _ := trivial
  entry := nofun
  tidying := nofun
  delivering := nofun
  taken := nofun
  token _ _ := rfl
  result := nofun
  seqs _ _ hpending := nomatch hpending.1
  timeout _ _ hregistered := nomatch hregistered
  deadline _ hswept := nomatch hswept.2.1
  swept := nofun
  off _ := rfl

/-! ## Consequences of the token law -/

/-- An entry that is not synchronous belongs to an asynchronous call. -/
theorem Books.kind_async (hst : Books opts st) {info : CallInfo}
    (hvalid : Valid opts st.pc st.expireAt info) (hsync : info.sync = false) :
    (opts info.owner).kind = .async := by
  apply Pc.kind_async_of_suits (hst.suits info.owner) hvalid.registered
  intro hkind
  rw [hvalid.sync.mpr hkind] at hsync
  cases hsync

theorem Books.tokens_le (hst : Books opts st) {c : CallId} (hkind : (opts c).kind = .async) :
    (if st.InMap c then 1 else 0) + st.holders c + (st.results c).length ≤ 1 := by
  have htoken := hst.token c hkind
  unfold tokens at htoken
  rw [htoken]
  split <;> omega

/-- A call that has been registered and has a token left has no result. -/
theorem Books.results_nil (hst : Books opts st) {c : CallId} (hkind : (opts c).kind = .async)
    (hspare : st.InMap c ∨ 0 < st.holders c) : st.results c = [] := by
  have hle := hst.tokens_le hkind
  apply List.eq_nil_of_length_eq_zero
  rcases hspare with hmap | hholders
  · rw [if_pos hmap] at hle
    omega
  · omega

/-- A call in `waitRsps` is held by nobody. -/
theorem Books.holders_eq_zero (hst : Books opts st) {c : CallId} (hkind : (opts c).kind = .async)
    (hmap : st.InMap c) : st.holders c = 0 := by
  have hle := hst.tokens_le hkind
  rw [if_pos hmap] at hle
  omega

theorem Books.results_of_not_async (hst : Books opts st) {c : CallId}
    (hkind : (opts c).kind ≠ .async) : st.results c = [] := by
  cases hresults : st.results c with
  | nil => rfl
  | cons result rest => exact absurd (hst.result c result (by simp [hresults])).1 hkind

theorem inMap_of_entry {info : CallInfo} {x : UInt32} (hentry : st.waitRsps x = some info)
    (hseq : st.seq info.owner = x) : st.InMap info.owner := by
  rw [InMap, hseq, hentry]
  rfl

theorem Books.entry_pending (hst : Books opts st) {x : UInt32} {info : CallInfo}
    (hentry : st.waitRsps x = some info) : st.Pending info.owner := by
  obtain ⟨hseq, hvalid, hwait⟩ := hst.entry x info hentry
  cases hsync : info.sync with
  | true =>
    have hkind : (opts info.owner).kind ≠ .async := by
      rw [hvalid.sync.mp hsync]
      nofun
    exact ⟨Pc.isOpen_of_inSyncWait (hwait hsync), hst.results_of_not_async hkind⟩
  | false =>
    have hkind := hst.kind_async hvalid hsync
    exact ⟨Pc.isOpen_of_suits (hkind ▸ hst.suits info.owner) hvalid.registered,
      hst.results_nil hkind (.inl (inMap_of_entry hentry hseq))⟩

/-- The owner of an asynchronous call somebody holds is pending. -/
theorem Books.held_pending (hst : Books opts st) {info : CallInfo}
    (hvalid : Valid opts st.pc st.expireAt info) (hsync : info.sync = false)
    (hholders : 0 < st.holders info.owner) : st.Pending info.owner := by
  have hkind := hst.kind_async hvalid hsync
  exact ⟨Pc.isOpen_of_suits (hkind ▸ hst.suits info.owner) hvalid.registered,
    hst.results_nil hkind (.inr hholders)⟩

/-! ## Steps that hand nothing on -/

theorem Valid.of_eq {pcs pcs' : CallId → Pc} {deadlines deadlines' : CallId → Int}
    {info : CallInfo} (hvalid : Valid opts pcs deadlines info)
    (hregistered : (pcs' info.owner).isRegistered = (pcs info.owner).isRegistered)
    (hdeadlines : deadlines' info.owner = deadlines info.owner) :
    Valid opts pcs' deadlines' info where
  registered := hregistered.trans hvalid.registered
  sync := hvalid.sync
  expireAt hsync := (hvalid.expireAt hsync).trans hdeadlines.symm
  passThrough := hvalid.passThrough

/-- A call that becomes pending has a number no other pending call has. -/
theorem Books.seqs_setPc (hst : Books opts st) (c : CallId) (pc : Pc)
    (hopen : pc.isOpen = true →
      (st.pc c).isOpen = true ∨ ∀ d, d ≠ c → st.Pending d → st.seq d ≠ st.seq c)
    (d e : CallId) (hd : (st.setPc c pc).Pending d) (he : (st.setPc c pc).Pending e)
    (heq : st.seq d = st.seq e) : d = e := by
  have hself : (st.setPc c pc).pc c = pc := Function.update_self ..
  have hpending : ∀ d, d ≠ c → (st.setPc c pc).Pending d → st.Pending d := by
    intro d hd h
    have hother : (st.setPc c pc).pc d = st.pc d := Function.update_of_ne hd ..
    rwa [Pending, hother] at h
  have hnew : ∀ d, d ≠ c → (st.setPc c pc).Pending c → st.Pending d → st.seq d ≠ st.seq c := by
    intro d hd hc hd' heq
    rw [Pending, hself] at hc
    rcases hopen hc.1 with h | h
    · exact hd (hst.seqs d c hd' ⟨h, hc.2⟩ heq)
    · exact h d hd hd' heq
  by_cases hdc : d = c
  · by_cases hec : e = c
    · exact hdc.trans hec.symm
    · rw [hdc] at hd heq
      exact absurd heq.symm (hnew e hec hd (hpending e hec he))
  · by_cases hec : e = c
    · rw [hec] at he heq
      exact absurd heq (hnew d hdc he (hpending d hdc hd))
    · exact hst.seqs d e (hpending d hdc hd) (hpending e hec he) heq

variable {d : CallId}

/-- Which calls the sweep can find after one has moved. -/
theorem Swept.of_setPc {c : CallId} {pc : Pc} {New : Prop}
    (hdeadline : pc.pastDeadline = true → (st.pc c).pastDeadline = true ∨ New)
    (hd : Swept opts (st.setPc c pc) d) : Swept opts st d ∨ d = c ∧ New := by
  obtain ⟨hkind, hmap, hpositive, hpast⟩ := hd
  by_cases hdc : d = c
  · subst hdc
    have hself : (st.setPc d pc).pc d = pc := Function.update_self ..
    rw [hself] at hpast
    rcases hdeadline hpast with h | h
    · exact Or.inl ⟨hkind, hmap, hpositive, h⟩
    · exact Or.inr ⟨rfl, h⟩
  · have hother : (st.setPc c pc).pc d = st.pc d := Function.update_of_ne hdc ..
    rw [hother] at hpast
    exact Or.inl ⟨hkind, hmap, hpositive, hpast⟩

/-- A step within `Invoke` that does not change whether the call is registered. -/
theorem Books.setPc (hst : Books opts st) {c : CallId} {old : Pc} (hpc : st.pc c = old) (pc : Pc)
    (hsuits : old.suits (opts c).kind → pc.suits (opts c).kind)
    (hregistered : pc.isRegistered = old.isRegistered)
    (hwait : old.inSyncWait = true →
      pc.inSyncWait = true ∨ ∀ x info, st.waitRsps x = some info → info.owner ≠ c)
    (hopen : pc.isOpen = true →
      old.isOpen = true ∨ ∀ d, d ≠ c → st.Pending d → st.seq d ≠ st.seq c)
    (hdeadline : pc.pastDeadline = true → old.pastDeadline = true ∨
      (st.timeouts.Has (st.expireAt c) (st.seq c) ∧ st.proc.swept = [])) :
    Books opts (st.setPc c pc) := by
  subst hpc
  have hsame : ∀ d, ((st.setPc c pc).pc d).isRegistered = (st.pc d).isRegistered := by
    intro d
    by_cases hd : d = c
    · simp [Client.setPc, hd, hregistered]
    · simp [Client.setPc, hd]
  have hvalid : ∀ info, Valid opts st.pc st.expireAt info →
      Valid opts (st.setPc c pc).pc st.expireAt info :=
    fun info h => h.of_eq (hsame _) rfl
  constructor
  case suits =>
    intro d
    by_cases hd : d = c
    · simpa [Client.setPc, hd] using hsuits (hst.suits c)
    · simpa [Client.setPc, hd] using hst.suits d
  case entry =>
    intro x info hentry
    obtain ⟨hseq, hinfo, hplace⟩ := hst.entry x info hentry
    refine ⟨hseq, hvalid info hinfo, fun hsync => ?_⟩
    by_cases hd : info.owner = c
    · rw [hd] at hplace
      rcases hwait (hplace hsync) with h | h
      · simpa [Client.setPc, hd] using h
      · exact absurd hd (h x info hentry)
    · simpa [Client.setPc, hd] using hplace hsync
  case tidying =>
    intro held hheld
    obtain ⟨hinfo, hrest⟩ := hst.tidying held hheld
    exact ⟨hvalid _ hinfo, hrest⟩
  case delivering =>
    intro held hheld
    obtain ⟨hinfo, hrest⟩ := hst.delivering held hheld
    exact ⟨hvalid _ hinfo, hrest⟩
  case taken => exact fun info hinfo => hvalid info (hst.taken info hinfo)
  case token =>
    intro d hkind
    rw [hsame d]
    exact hst.token d hkind
  case result => exact hst.result
  case seqs => exact hst.seqs_setPc c pc hopen
  case timeout =>
    intro d hkind hd
    rw [hsame d] at hd
    exact hst.timeout d hkind hd
  case deadline =>
    intro d hd
    rcases hd.of_setPc hdeadline with h | ⟨rfl, h⟩
    · exact hst.deadline d h
    · exact h.1
  case swept =>
    intro key hkey d hd
    rcases hd.of_setPc hdeadline with h | ⟨rfl, h⟩
    · exact hst.swept key hkey d h
    · have hnone : key ∈ st.proc.swept := hkey
      rw [h.2] at hnone
      cases hnone
  case off => exact hst.off

/-- A step that leaves the tables alone. -/
theorem Books.other (hst : Books opts st) (proc : Proc) (runTimeout : Bool)
    (hinfos : proc.callInfos = st.proc.callInfos) (hswept : ∀ key ∈ proc.swept, key ∈ st.proc.swept)
    (hoff : runTimeout = false → proc = .off) (genMsgId : UInt32)
    (syncRet : CallId → Option Response) (trig closed : Bool) (inTime : CallId → Bool) :
    Books opts { st with
      genMsgId := genMsgId, syncRet := syncRet, runTimeout := runTimeout, trig := trig,
      proc := proc, closed := closed, inTime := inTime } where
  suits := hst.suits
  entry := hst.entry
  tidying := hst.tidying
  delivering := hst.delivering
  taken := hinfos ▸ hst.taken
  token c hkind := by
    simp only [tokens, holders, hinfos]
    exact hst.token c hkind
  result := hst.result
  seqs := hst.seqs
  timeout := hst.timeout
  deadline := hst.deadline
  swept key hkey := hst.swept key (hswept key hkey)
  off := hoff

/-- A change of the tree after which every call is still found. -/
theorem Books.timeouts (hst : Books opts st) {timeouts : Timeouts}
    (hkeep : ∀ c, Swept opts st c → timeouts.Has (st.expireAt c) (st.seq c)) :
    Books opts { st with timeouts := timeouts } where
  suits := hst.suits
  entry := hst.entry
  tidying := hst.tidying
  delivering := hst.delivering
  taken := hst.taken
  token := hst.token
  result := hst.result
  seqs := hst.seqs
  timeout := hst.timeout
  deadline := hkeep
  swept := hst.swept
  off := hst.off

/-! ## A call gets its number and is registered -/

/-- A call that is not registered owns nothing. -/
theorem Valid.owner_ne {c : CallId} {info : CallInfo} (hvalid : Valid opts st.pc st.expireAt info)
    (hc : (st.pc c).isRegistered = false) : info.owner ≠ c := by
  intro howner
  have hregistered := hvalid.registered
  rw [howner, hc] at hregistered
  cases hregistered

theorem Books.not_inMap (hst : Books opts st) {c : CallId} (hc : (st.pc c).isRegistered = false)
    (x : UInt32) : (st.waitRsps x).map CallInfo.owner ≠ some c := by
  intro hmap
  obtain ⟨info, hentry, howner⟩ := Option.map_eq_some_iff.mp hmap
  exact (hst.entry x info hentry).2.1.owner_ne hc howner

theorem Books.begin (hst : Books opts st) {c : CallId} (hpc : st.pc c = .idle)
    (hfresh : st.NoReuse (.begin c)) : Books opts (st.begin c) := by
  have hc : (st.pc c).isRegistered = false := by
    rw [hpc]
    rfl
  -- first the number, which nobody looks at, then the step of `Invoke`
  have hseq : ∀ d, d ≠ c → Function.update st.seq c (st.genMsgId + 1) d = st.seq d :=
    fun d hd => Function.update_of_ne hd _ _
  have hmap : ∀ d,
      ({ st with seq := Function.update st.seq c (st.genMsgId + 1) } : Client).InMap d ↔
        st.InMap d := by
    intro d
    by_cases hd : d = c
    · rw [hd]
      exact iff_of_false (hst.not_inMap hc _) (hst.not_inMap hc _)
    · simp only [InMap, hseq d hd]
  have hnumbered : Books opts { st with seq := Function.update st.seq c (st.genMsgId + 1) } := by
    constructor
    case suits => exact hst.suits
    case entry =>
      intro x info hentry
      obtain ⟨hx, hvalid, hwait⟩ := hst.entry x info hentry
      exact ⟨(hseq _ (hvalid.owner_ne hc)).trans hx, hvalid, hwait⟩
    case tidying =>
      intro held hheld
      obtain ⟨hvalid, hsync, hx⟩ := hst.tidying held hheld
      exact ⟨hvalid, hsync, (hseq _ (hvalid.owner_ne hc)).trans hx⟩
    case delivering => exact hst.delivering
    case taken => exact hst.taken
    case token =>
      intro d hkind
      simp only [tokens, hmap d]
      exact hst.token d hkind
    case result => exact hst.result
    case seqs =>
      intro d e hd he heq
      have hne : ∀ d, st.Pending d → d ≠ c := by
        intro d hd hdc
        have hopen := hd.1
        rw [hdc, hpc] at hopen
        cases hopen
      simp only [hseq d (hne d hd), hseq e (hne e he)] at heq
      exact hst.seqs d e hd he heq
    case timeout => exact hst.timeout
    case deadline =>
      intro d hd
      have hdc : d ≠ c := fun hdc => hst.not_inMap hc _ (hdc ▸ (hmap d).mp hd.2.1)
      have hswept : Swept opts st d := ⟨hd.1, (hmap d).mp hd.2.1, hd.2.2⟩
      simpa only [hseq d hdc] using hst.deadline d hswept
    case swept =>
      intro key hkey d hd
      exact hst.swept key hkey d ⟨hd.1, (hmap d).mp hd.2.1, hd.2.2⟩
    case off => exact hst.off
  have hopens : ∀ d, d ≠ c → st.Pending d →
      Function.update st.seq c (st.genMsgId + 1) d ≠
        Function.update st.seq c (st.genMsgId + 1) c := by
    intro d hd hpending
    rw [hseq d hd, Function.update_self]
    exact hfresh d hpending
  have hbegun := hnumbered.setPc hpc .begun (fun _ => trivial) rfl nofun (fun _ => .inr hopens)
    nofun
  exact hbegun.other st.proc st.runTimeout rfl (fun _ h => h) hst.off _ _ _ _ _

theorem Books.written_pending (hst : Books opts st) {c : CallId} (hpc : st.pc c = .written) :
    st.Pending c := by
  refine ⟨by rw [hpc]; rfl, ?_⟩
  by_cases hkind : (opts c).kind = .async
  · have htoken := hst.token c hkind
    rw [hpc, tokens] at htoken
    simp only [Pc.isRegistered, Bool.false_eq_true, if_false] at htoken
    apply List.eq_nil_of_length_eq_zero
    omega
  · exact hst.results_of_not_async hkind

/-- Nobody waits under the number of a call that is about to register. -/
theorem Books.vacant (hst : Books opts st) {c : CallId} (hpc : st.pc c = .written) :
    st.waitRsps (st.seq c) = none := by
  cases hentry : st.waitRsps (st.seq c) with
  | none => rfl
  | some info =>
    obtain ⟨hseq, hvalid, -⟩ := hst.entry _ info hentry
    have howner := hst.seqs _ _ (hst.entry_pending hentry) (hst.written_pending hpc) hseq
    have hregistered := hvalid.registered
    rw [howner, hpc] at hregistered
    cases hregistered

/-- A call is entered in `waitRsps`. -/
def enter (st : Client) (c : CallId) (pc : Pc) (expireAt : Int) (info : CallInfo) : Client :=
  { st with
    pc := Function.update st.pc c pc
    expireAt := Function.update st.expireAt c expireAt
    waitRsps := Function.update st.waitRsps (st.seq c) (some info) }

section Entering

variable {c : CallId} {pc : Pc} {expireAt : Int} {info : CallInfo}

theorem enter_pc_self : (st.enter c pc expireAt info).pc c = pc := Function.update_self ..

theorem enter_pc (hd : d ≠ c) : (st.enter c pc expireAt info).pc d = st.pc d :=
  Function.update_of_ne hd ..

theorem enter_expireAt_self : (st.enter c pc expireAt info).expireAt c = expireAt :=
  Function.update_self ..

theorem enter_expireAt (hd : d ≠ c) : (st.enter c pc expireAt info).expireAt d = st.expireAt d :=
  Function.update_of_ne hd ..

theorem enter_waitRsps_self : (st.enter c pc expireAt info).waitRsps (st.seq c) = some info :=
  Function.update_self ..

theorem enter_waitRsps {x : UInt32} (hx : x ≠ st.seq c) :
    (st.enter c pc expireAt info).waitRsps x = st.waitRsps x :=
  Function.update_of_ne hx ..

theorem Valid.enter (hc : (st.pc c).isRegistered = false) {info' : CallInfo}
    (hvalid : Valid opts st.pc st.expireAt info') :
    Valid opts (st.enter c pc expireAt info).pc (st.enter c pc expireAt info).expireAt info' := by
  have hne := hvalid.owner_ne hc
  exact hvalid.of_eq (by rw [enter_pc hne]) (enter_expireAt hne)

theorem valid_self (hregistered : pc.isRegistered = true) (howner : info.owner = c)
    (hsync : info.sync = true ↔ (opts c).kind = .sync)
    (hexpireAt : info.sync = false → info.expireAt = expireAt)
    (hpass : info.sync = false → info.passThrough = (opts c).passThrough) :
    Valid opts (st.enter c pc expireAt info).pc (st.enter c pc expireAt info).expireAt info := by
  subst howner
  refine ⟨?_, hsync, ?_, hpass⟩
  · rw [enter_pc_self]
    exact hregistered
  · rw [enter_expireAt_self]
    exact hexpireAt

theorem inMap_self (howner : info.owner = c) : (st.enter c pc expireAt info).InMap c := by
  have hself : ((st.enter c pc expireAt info).waitRsps (st.seq c)).map CallInfo.owner = some c := by
    rw [enter_waitRsps_self, Option.map_some, howner]
  exact hself

theorem inMap_enter_iff (hvacant : st.waitRsps (st.seq c) = none) (howner : info.owner = c)
    (hd : d ≠ c) : (st.enter c pc expireAt info).InMap d ↔ st.InMap d := by
  show ((st.enter c pc expireAt info).waitRsps (st.seq d)).map CallInfo.owner = some d ↔ _
  unfold InMap
  by_cases hx : st.seq d = st.seq c
  · rw [hx, enter_waitRsps_self, hvacant]
    simp [howner, Ne.symm hd]
  · rw [enter_waitRsps hx]

theorem Books.token_enter (hst : Books opts st) (hvacant : st.waitRsps (st.seq c) = none)
    (howner : info.owner = c) (hc : (st.pc c).isRegistered = false) (hnot : ¬ st.InMap c)
    (hregistered : pc.isRegistered = true) (hkind : (opts d).kind = .async) :
    (st.enter c pc expireAt info).tokens d =
      if ((st.enter c pc expireAt info).pc d).isRegistered then 1 else 0 := by
  have htoken := hst.token d hkind
  unfold tokens at htoken ⊢
  change (if InMap _ d then 1 else 0) + st.holders d + (st.results d).length = _
  by_cases hd : d = c
  · rw [hd, if_pos (inMap_self howner)]
    rw [hd, if_neg hnot, hc] at htoken
    simp only [Bool.false_eq_true, if_false] at htoken
    rw [enter_pc_self, hregistered, if_pos rfl]
    omega
  · rw [enter_pc hd]
    simpa only [inMap_enter_iff hvacant howner hd] using htoken

/-- The call itself has its deadline still to enter. -/
theorem swept_of_enter (hvacant : st.waitRsps (st.seq c) = none) (howner : info.owner = c)
    (hdeadline : pc.pastDeadline = true → expireAt ≤ 0)
    (hd : Swept opts (st.enter c pc expireAt info) d) : d ≠ c ∧ Swept opts st d := by
  obtain ⟨hkind, hmap', hpositive, hpast⟩ := hd
  by_cases hdc : d = c
  · rw [hdc] at hpositive hpast
    rw [enter_expireAt_self] at hpositive
    rw [enter_pc_self] at hpast
    have hle := hdeadline hpast
    omega
  · have hmap := (inMap_enter_iff hvacant howner hdc).mp hmap'
    rw [enter_expireAt hdc] at hpositive
    rw [enter_pc hdc] at hpast
    exact ⟨hdc, hkind, hmap, hpositive, hpast⟩

theorem Books.enter (hst : Books opts st) (hpc : st.pc c = .written)
    (hregistered : pc.isRegistered = true) (hsuits : pc.suits (opts c).kind)
    (hwait : info.sync = true → pc.inSyncWait = true) (howner : info.owner = c)
    (hsync : info.sync = true ↔ (opts c).kind = .sync)
    (hexpireAt : info.sync = false → info.expireAt = expireAt)
    (hpass : info.sync = false → info.passThrough = (opts c).passThrough)
    (htimeout : (opts c).kind = .async → (opts c).timeout.isSome = true → 0 < expireAt)
    (hdeadline : pc.pastDeadline = true → expireAt ≤ 0) :
    Books opts (st.enter c pc expireAt info) := by
  have hc : (st.pc c).isRegistered = false := by
    rw [hpc]
    rfl
  have hvacant := hst.vacant hpc
  constructor
  case suits =>
    intro d
    by_cases hd : d = c
    · rw [hd, enter_pc_self]
      exact hsuits
    · rw [enter_pc hd]
      exact hst.suits d
  case entry =>
    intro x info' hentry
    by_cases hx : x = st.seq c
    · rw [hx, enter_waitRsps_self, Option.some.injEq] at hentry
      rw [← hentry, howner, hx, enter_pc_self]
      exact ⟨rfl, valid_self hregistered howner hsync hexpireAt hpass, hwait⟩
    · rw [enter_waitRsps hx] at hentry
      obtain ⟨hx', hvalid, hplace⟩ := hst.entry x info' hentry
      rw [enter_pc (hvalid.owner_ne hc)]
      exact ⟨hx', hvalid.enter hc, hplace⟩
  case tidying =>
    intro held hheld
    obtain ⟨hvalid, hrest⟩ := hst.tidying held hheld
    exact ⟨hvalid.enter hc, hrest⟩
  case delivering =>
    intro held hheld
    obtain ⟨hvalid, hrest⟩ := hst.delivering held hheld
    exact ⟨hvalid.enter hc, hrest⟩
  case taken => exact fun info' hinfo => (hst.taken info' hinfo).enter hc
  case token =>
    exact fun d hkind => hst.token_enter hvacant howner hc (hst.not_inMap hc _) hregistered hkind
  case result => exact hst.result
  case seqs =>
    have hpending : ∀ d, (st.enter c pc expireAt info).Pending d → st.Pending d := by
      intro d hd
      refine ⟨?_, hd.2⟩
      by_cases hdc : d = c
      · rw [hdc, hpc]
        rfl
      · exact enter_pc hdc ▸ hd.1
    exact fun d e hd he => hst.seqs d e (hpending d hd) (hpending e he)
  case timeout =>
    intro d hkind hd hsome
    by_cases hdc : d = c
    · rw [hdc] at hkind hsome ⊢
      rw [enter_expireAt_self]
      exact htimeout hkind hsome
    · rw [enter_pc hdc] at hd
      rw [enter_expireAt hdc]
      exact hst.timeout d hkind hd hsome
  case deadline =>
    intro d hd
    obtain ⟨hdc, hold⟩ := swept_of_enter hvacant howner hdeadline hd
    rw [enter_expireAt hdc]
    exact hst.deadline d hold
  case swept =>
    intro key hkey d hd
    obtain ⟨hdc, hold⟩ := swept_of_enter hvacant howner hdeadline hd
    rw [enter_expireAt hdc]
    exact hst.swept key hkey d hold
  case off => exact hst.off

end Entering

/-- The clock being past zero, a call with a timeout has a deadline. -/
theorem deadline_pos {opt : CallOption} {nowMs : Int} (hnow : 0 < nowMs)
    (hsome : opt.timeout.isSome = true) : 0 < Client.deadline opt nowMs := by
  obtain ⟨timeout, htimeout⟩ := Option.isSome_iff_exists.mp hsome
  simp only [Client.deadline, htimeout]
  omega

theorem Books.register (hst : Books opts st) {c : CallId} (hpc : st.pc c = .written)
    {nowMs : Int} (hnow : 0 < nowMs) : Books opts (st.register opts c nowMs) := by
  unfold Client.register
  cases hkind : (opts c).kind with
  | sync =>
    have hentered := @Books.enter opts st c .waiting (st.expireAt c)
      { owner := c, sync := true, expireAt := 0, passThrough := 0 } hst hpc rfl
      (by rw [hkind]; rfl) (fun _ => rfl) rfl (by simp [hkind]) nofun nofun (by simp [hkind]) nofun
    rwa [Client.enter, Function.update_eq_self] at hentered
  | async =>
    apply hst.enter hpc
    · split <;> rfl
    · rw [hkind]
      split <;> rfl
    · nofun
    · rfl
    · simp [hkind]
    · exact fun _ => rfl
    · exact fun _ => rfl
    · exact fun _ hsome => deadline_pos hnow hsome
    · split
      · nofun
      · intro _
        omega
  | asyncNoResp => exact hst.setPc hpc .skipped (fun _ => by rw [hkind]; rfl) rfl nofun nofun nofun

/-! ## A call is handed on -/

/-- A step that takes entries out of `waitRsps`, or passes on what a goroutine
holds: if it conserves tokens it keeps the books. -/
theorem Books.handOn (hst : Books opts st) {st' : Client}
    (hsame : st' = { st with
      waitRsps := st'.waitRsps, tidying := st'.tidying, delivering := st'.delivering,
      proc := st'.proc, results := st'.results })
    (hentry : ∀ x info, st'.waitRsps x = some info → st.waitRsps x = some info)
    (htidying : ∀ held ∈ st'.tidying, Valid opts st.pc st.expireAt held.info ∧
      held.info.sync = false ∧ st.seq held.info.owner = held.msg.seq)
    (hdelivering : ∀ held ∈ st'.delivering,
      Valid opts st.pc st.expireAt held.info ∧ held.info.sync = false)
    (htaken : ∀ info ∈ st'.proc.callInfos, Valid opts st.pc st.expireAt info)
    (hresult : ∀ c, ∀ result ∈ st'.results c,
      (opts c).kind = .async ∧ result.passThrough = (opts c).passThrough)
    (hgrow : ∀ c, st'.results c = [] → st.results c = [])
    (htoken : ∀ c, (opts c).kind = .async → st'.tokens c = st.tokens c)
    (hswept : ∀ key ∈ st'.proc.swept, key ∈ st.proc.swept ∨
      ∀ c, Swept opts st c → st'.InMap c → st.expireAt c ≠ key)
    (hoff : st.runTimeout = false → st'.proc = .off) : Books opts st' := by
  -- the fields of the new state, so that the others are those of the old one
  generalize st'.waitRsps = waitRsps, st'.tidying = tidying, st'.delivering = delivering,
    st'.proc = proc, st'.results = results at *
  subst hsame
  have hmap : ∀ c, InMap { st with waitRsps, tidying, delivering, proc, results } c →
      st.InMap c := by
    intro c hc
    obtain ⟨info, hinfo, howner⟩ := Option.map_eq_some_iff.mp hc
    rw [InMap, hentry _ _ hinfo, Option.map_some, howner]
  have hold : ∀ c, Swept opts { st with waitRsps, tidying, delivering, proc, results } c →
      Swept opts st c :=
    fun c hc => ⟨hc.1, hmap c hc.2.1, hc.2.2⟩
  constructor
  case suits => exact hst.suits
  case entry => exact fun x info hinfo => hst.entry x info (hentry x info hinfo)
  case tidying => exact htidying
  case delivering => exact hdelivering
  case taken => exact htaken
  case token => exact fun c hkind => (htoken c hkind).trans (hst.token c hkind)
  case result => exact hresult
  case seqs => exact fun c d hc hd => hst.seqs c d ⟨hc.1, hgrow c hc.2⟩ ⟨hd.1, hgrow d hd.2⟩
  case timeout => exact hst.timeout
  case deadline => exact fun c hc => hst.deadline c (hold c hc)
  case swept =>
    intro key hkey c hc
    rcases hswept key hkey with h | h
    · exact hst.swept key h c (hold c hc)
    · exact h c (hold c hc) hc.2.1
  case off => exact hoff

variable {ret : Option Response}

/-- A synchronous call is pending until its deferred function has run. -/
theorem Books.leaving_pending (hst : Books opts st) {c : CallId} (hpc : st.pc c = .leaving ret) :
    (opts c).kind = .sync ∧ st.Pending c := by
  have hsuits := hst.suits c
  rw [hpc] at hsuits
  have hkind : (opts c).kind = .sync := hsuits
  refine ⟨hkind, by rw [hpc]; rfl, hst.results_of_not_async ?_⟩
  rw [hkind]
  nofun

/-- The deferred function of `syncCallWait` takes out its own entry. -/
theorem Books.unregister (hst : Books opts st) {c : CallId} (hpc : st.pc c = .leaving ret) :
    Books opts { st with waitRsps := Function.update st.waitRsps (st.seq c) none } := by
  obtain ⟨hkind, hpending⟩ := hst.leaving_pending hpc
  have hmap : ∀ d, (opts d).kind = .async →
      (({ st with waitRsps := Function.update st.waitRsps (st.seq c) none } : Client).InMap d ↔
        st.InMap d) := by
    intro d hd
    simp only [InMap]
    by_cases hx : st.seq d = st.seq c
    · rw [hx, Function.update_self]
      refine iff_of_false nofun fun hold => ?_
      obtain ⟨info, hentry, howner⟩ := Option.map_eq_some_iff.mp hold
      have hsame := hst.seqs _ _ (hst.entry_pending hentry) hpending (hst.entry _ _ hentry).1
      rw [← howner, hsame, hkind] at hd
      cases hd
    · rw [Function.update_of_ne hx]
  apply hst.handOn rfl
  · intro x info hentry
    by_cases hx : x = st.seq c
    · rw [hx] at hentry
      simp at hentry
    · simpa [hx] using hentry
  · exact hst.tidying
  · exact hst.delivering
  · exact hst.taken
  · exact hst.result
  · exact fun _ h => h
  · intro d hd
    simp only [tokens, hmap d hd]
    rfl
  · exact fun _ h => .inl h
  · exact hst.off

/-- A receiver takes an asynchronous call out of `waitRsps`. -/
theorem Books.hold (hst : Books opts st) {msg : Response} {info : CallInfo}
    (hentry : st.waitRsps msg.seq = some info) (hsync : info.sync = false) :
    Books opts { st with
      waitRsps := Function.update st.waitRsps msg.seq none
      tidying := ⟨info, msg⟩ :: st.tidying } := by
  obtain ⟨hseq, hvalid, -⟩ := hst.entry _ _ hentry
  have hsub : ∀ x info', Function.update st.waitRsps msg.seq none x = some info' →
      st.waitRsps x = some info' := by
    intro x info' h
    by_cases hx : x = msg.seq
    · rw [hx, Function.update_self] at h
      cases h
    · rwa [Function.update_of_ne hx] at h
  apply hst.handOn rfl hsub
  · intro held hheld
    rcases List.mem_cons.mp hheld with rfl | hold
    · exact ⟨hvalid, hsync, hseq⟩
    · exact hst.tidying held hold
  · exact hst.delivering
  · exact hst.taken
  · exact hst.result
  · exact fun _ h => h
  · intro c _
    have hmap : st.InMap c ↔ info.owner = c ∨
        ({ st with
            waitRsps := Function.update st.waitRsps msg.seq none
            tidying := ⟨info, msg⟩ :: st.tidying } : Client).InMap c := by
      simp only [InMap]
      by_cases hx : st.seq c = msg.seq
      · simp [hx, hentry]
      · have hne : info.owner ≠ c := fun h => hx (h ▸ hseq)
        simp [hx, hne]
    by_cases hc : info.owner = c
    · have hgone : ¬ ({ st with
            waitRsps := Function.update st.waitRsps msg.seq none
            tidying := ⟨info, msg⟩ :: st.tidying } : Client).InMap c := by
        simp [InMap, ← hc, hseq]
      rw [tokens, tokens, if_neg hgone, if_pos (hmap.mpr (.inl hc))]
      simp only [holders, List.map_cons, hc, List.count_cons_self]
      omega
    · simp only [hc, false_or] at hmap
      simp only [tokens, ← hmap]
      simp only [holders, List.map_cons, List.count_cons_of_ne hc]
  · exact fun _ h => .inl h
  · exact hst.off

variable {held : Held}

/-- How often a call is held, before one receiver is done with it. -/
theorem count_erase_held {list : List Held} (hmem : held ∈ list) (c : CallId) :
    (list.map (·.info.owner)).count c =
      ((list.erase held).map (·.info.owner)).count c + if held.info.owner = c then 1 else 0 := by
  have hperm := (List.perm_cons_erase hmem).map (·.info.owner)
  rw [hperm.count_eq, List.map_cons, List.count_cons]
  simp

theorem Books.tidied (hst : Books opts st) (hmem : held ∈ st.tidying) :
    Books opts { st with
      tidying := st.tidying.erase held
      delivering := held :: st.delivering } := by
  obtain ⟨hvalid, hsync, -⟩ := hst.tidying held hmem
  apply hst.handOn rfl
  · exact fun _ _ h => h
  · exact fun other hother => hst.tidying other (List.mem_of_mem_erase hother)
  · intro other hother
    rcases List.mem_cons.mp hother with rfl | hold
    · exact ⟨hvalid, hsync⟩
    · exact hst.delivering other hold
  · exact hst.taken
  · exact hst.result
  · exact fun _ h => h
  · intro c _
    have hcount := count_erase_held hmem c
    simp only [tokens, holders, List.map_cons, List.count_cons, beq_iff_eq, hcount]
    have hmap : ({ st with
        tidying := st.tidying.erase held
        delivering := held :: st.delivering } : Client).InMap c ↔ st.InMap c := Iff.rfl
    simp only [hmap]
    omega
  · exact fun _ h => .inl h
  · exact hst.off

/-- The tree without the number of a call that a receiver holds. -/
theorem Books.dropped (hst : Books opts st) (hmem : held ∈ st.tidying) :
    Books opts { st with
      timeouts := st.timeouts.drop held.info.expireAt held.msg.seq } := by
  apply hst.timeouts
  intro c hc
  rw [Timeouts.has_drop]
  refine ⟨hst.deadline c hc, fun hsame => ?_⟩
  -- a call with the same number would be the one that is held
  obtain ⟨hvalid, hsync, hseq⟩ := hst.tidying held hmem
  have hholders : 0 < st.holders held.info.owner := by
    have hcount := count_erase_held hmem held.info.owner
    rw [if_pos rfl] at hcount
    unfold holders
    omega
  obtain ⟨hkind, hmap, -⟩ := hc
  obtain ⟨info, hentry, howner⟩ := Option.map_eq_some_iff.mp hmap
  have hpending := hst.entry_pending hentry
  rw [howner] at hpending
  have heq := hst.seqs _ _ hpending (hst.held_pending hvalid hsync hholders)
    (hsame.2.trans hseq.symm)
  rw [← heq, hst.holders_eq_zero hkind hmap] at hholders
  cases hholders

theorem sendResult_apply (info : CallInfo) (verdict : Verdict) (c : CallId) :
    st.sendResult info verdict c = st.results c ++
      if info.owner = c then [{ verdict := verdict, passThrough := info.passThrough }] else [] := by
  unfold sendResult
  by_cases hc : info.owner = c
  · simp [hc]
  · simp [hc, Function.update_of_ne (Ne.symm hc)]

/-- Every result is sent to an asynchronous call and carries its own value. -/
theorem Books.result_sendResult (hst : Books opts st) {info : CallInfo}
    (hvalid : Valid opts st.pc st.expireAt info) (hsync : info.sync = false) (verdict : Verdict)
    (c : CallId) :
    ∀ result ∈ st.sendResult info verdict c,
      (opts c).kind = .async ∧ result.passThrough = (opts c).passThrough := by
  intro result hresult
  rw [sendResult_apply, List.mem_append] at hresult
  rcases hresult with hold | hnew
  · exact hst.result c result hold
  · by_cases hc : info.owner = c
    · rw [if_pos hc, List.mem_singleton] at hnew
      rw [hnew, ← hc]
      exact ⟨hst.kind_async hvalid hsync, hvalid.passThrough hsync⟩
    · rw [if_neg hc] at hnew
      cases hnew

theorem results_nil_of_sendResult {info : CallInfo} {verdict : Verdict} {c : CallId}
    (hnil : st.sendResult info verdict c = []) : st.results c = [] := by
  rw [sendResult_apply] at hnil
  exact List.append_eq_nil_iff.mp hnil |>.1

theorem length_sendResult (info : CallInfo) (verdict : Verdict) (c : CallId) :
    (st.sendResult info verdict c).length =
      (st.results c).length + if info.owner = c then 1 else 0 := by
  rw [sendResult_apply, List.length_append]
  split <;> rfl

theorem Books.deliver (hst : Books opts st) (hmem : held ∈ st.delivering) :
    Books opts (st.deliver held) := by
  obtain ⟨hvalid, hsync⟩ := hst.delivering held hmem
  apply hst.handOn rfl
  · exact fun _ _ h => h
  · exact hst.tidying
  · exact fun other hother => hst.delivering other (List.mem_of_mem_erase hother)
  · exact hst.taken
  · exact fun c => hst.result_sendResult hvalid hsync _ c
  · exact fun _ h => results_nil_of_sendResult h
  · intro c _
    have hcount := count_erase_held hmem c
    have hlength : ((st.deliver held).results c).length = _ :=
      length_sendResult held.info (.response held.msg) c
    have hmap : (st.deliver held).InMap c ↔ st.InMap c := Iff.rfl
    simp only [tokens, hmap, hlength]
    simp only [holders, Client.deliver, hcount]
    omega
  · exact fun _ h => .inl h
  · exact hst.off

/-- `processTimeout` sends the next call it has taken its result. -/
theorem Books.sendTimeout (hst : Books opts st) {expireAt : Int} {info : CallInfo}
    {rest : List CallInfo} (hproc : st.proc = .sending expireAt (info :: rest)) :
    Books opts st.sendTimeout := by
  have hvalid : Valid opts st.pc st.expireAt info := by
    apply hst.taken
    rw [hproc]
    exact List.mem_cons_self
  have htaken : ∀ other ∈ rest, Valid opts st.pc st.expireAt other := by
    intro other hother
    apply hst.taken
    rw [hproc]
    exact List.mem_cons_of_mem info hother
  have hoff : st.runTimeout = false → Proc.sending expireAt rest = .off :=
    fun hrun => Proc.noConfusion (hproc.symm.trans (hst.off hrun))
  rw [sendTimeout_of_sending hproc]
  by_cases hsync : info.sync = true
  · rw [if_pos hsync]
    apply hst.handOn rfl
    · exact fun _ _ h => h
    · exact hst.tidying
    · exact hst.delivering
    · exact htaken
    · exact hst.result
    · exact fun _ h => h
    · intro c hkind
      have hne : info.owner ≠ c := by
        intro hc
        rw [← hc, hvalid.sync.mp hsync] at hkind
        cases hkind
      have hmap : ({ st with proc := .sending expireAt rest } : Client).InMap c ↔ st.InMap c :=
        Iff.rfl
      simp only [tokens, hmap]
      simp only [holders, hproc, Proc.callInfos, List.map_cons, List.count_cons_of_ne hne]
    · exact fun _ h => absurd h List.not_mem_nil
    · exact hoff
  · rw [if_neg hsync]
    rw [Bool.not_eq_true] at hsync
    apply hst.handOn rfl
    · exact fun _ _ h => h
    · exact hst.tidying
    · exact hst.delivering
    · exact htaken
    · exact fun c => hst.result_sendResult hvalid hsync _ c
    · exact fun _ h => results_nil_of_sendResult h
    · intro c _
      have hlength : (st.sendResult info .errRpcCallTimeout c).length = _ :=
        length_sendResult info .errRpcCallTimeout c
      have hmap : ({ st with
          proc := .sending expireAt rest
          results := st.sendResult info .errRpcCallTimeout } : Client).InMap c ↔ st.InMap c :=
        Iff.rfl
      simp only [tokens, hmap, hlength]
      simp only [holders, hproc, Proc.callInfos, List.map_cons, List.count_cons, beq_iff_eq]
      omega
    · exact fun _ h => absurd h List.not_mem_nil
    · exact hoff

/-! ## The sweep -/

theorem takeAll_fst (waitRsps : UInt32 → Option CallInfo) (order : List UInt32) (x : UInt32) :
    (takeAll waitRsps order).1 x = if x ∈ order then none else waitRsps x := by
  induction order generalizing waitRsps with
  | nil => simp [takeAll]
  | cons seq rest ih =>
    unfold takeAll
    cases hseq : waitRsps seq with
    | none =>
      simp only [ih, List.mem_cons]
      by_cases hx : x = seq
      · simp [hx, hseq]
      · simp [hx]
    | some info =>
      simp only [ih, List.mem_cons]
      by_cases hx : x = seq
      · simp [hx]
      · simp [hx]

theorem mem_takeAll {waitRsps : UInt32 → Option CallInfo} {order : List UInt32} {info : CallInfo}
    (hmem : info ∈ (takeAll waitRsps order).2) : ∃ x ∈ order, waitRsps x = some info := by
  induction order generalizing waitRsps with
  | nil => cases hmem
  | cons seq rest ih =>
    unfold takeAll at hmem
    cases hseq : waitRsps seq with
    | none =>
      rw [hseq] at hmem
      obtain ⟨x, hx, hentry⟩ := ih hmem
      exact ⟨x, List.mem_cons_of_mem seq hx, hentry⟩
    | some first =>
      rw [hseq] at hmem
      rcases List.mem_cons.mp hmem with rfl | hrest
      · exact ⟨seq, List.mem_cons_self, hseq⟩
      · obtain ⟨x, hx, hentry⟩ := ih hrest
        by_cases hsame : x = seq
        · rw [hsame, Function.update_self] at hentry
          cases hentry
        · rw [Function.update_of_ne hsame] at hentry
          exact ⟨x, List.mem_cons_of_mem seq hx, hentry⟩

/-- A sweep takes a call exactly if it takes its number, and takes it once. -/
theorem count_takeAll {seqOf : CallId → UInt32} {waitRsps : UInt32 → Option CallInfo}
    (howned : ∀ x info, waitRsps x = some info → seqOf info.owner = x) (order : List UInt32)
    (c : CallId) :
    ((takeAll waitRsps order).2.map (·.owner)).count c =
      if seqOf c ∈ order ∧ (waitRsps (seqOf c)).map CallInfo.owner = some c then 1 else 0 := by
  induction order generalizing waitRsps with
  | nil => simp [takeAll]
  | cons seq rest ih =>
    unfold takeAll
    cases hseq : waitRsps seq with
    | none =>
      simp only [ih howned, List.mem_cons]
      by_cases hc : seqOf c = seq
      · simp [hc, hseq]
      · simp [hc]
    | some info =>
      have howned' : ∀ x info', Function.update waitRsps seq none x = some info' →
          seqOf info'.owner = x := by
        intro x info' h
        by_cases hx : x = seq
        · rw [hx, Function.update_self] at h
          cases h
        · rw [Function.update_of_ne hx] at h
          exact howned x info' h
      have howner := howned seq info hseq
      simp only [List.map_cons, List.count_cons, ih howned', List.mem_cons]
      by_cases hc : seqOf c = seq
      · by_cases hinfo : info.owner = c
        · simp [hc, hseq, hinfo]
        · simp [hc, hseq, hinfo]
      · have hne : info.owner ≠ c := fun h => hc (h ▸ howner)
        simp [hc, hne]

/-- One deadline of a sweep: the calls with its numbers are taken. -/
theorem Books.sweepKey (hst : Books opts st) {key : Int} {left swept : List Int}
    {callInfos : List CallInfo} {order : List UInt32}
    (hproc : st.proc = .sweeping (key :: left) swept callInfos)
    (horder : order.Perm (st.timeouts[key]?.getD [])) : Books opts (st.sweepKey order) := by
  have howned : ∀ x info, st.waitRsps x = some info → st.seq info.owner = x :=
    fun x info h => (hst.entry x info h).1
  rw [sweepKey_of_sweeping hproc]
  apply hst.handOn rfl
  · intro x info hentry
    simp only [takeAll_fst] at hentry
    split at hentry
    · cases hentry
    · exact hentry
  · exact hst.tidying
  · exact hst.delivering
  · intro info hinfo
    rcases List.mem_append.mp hinfo with hold | hnew
    · apply hst.taken
      rw [hproc]
      exact hold
    · obtain ⟨x, -, hentry⟩ := mem_takeAll hnew
      exact (hst.entry x info hentry).2.1
  · exact hst.result
  · exact fun _ h => h
  · intro c _
    have hcount := count_takeAll howned order c
    have hmap : ({ st with
        waitRsps := (takeAll st.waitRsps order).1
        proc := .sweeping left (key :: swept) (callInfos ++ (takeAll st.waitRsps order).2) } :
          Client).InMap c ↔ st.seq c ∉ order ∧ st.InMap c := by
      simp only [InMap, takeAll_fst]
      by_cases hmem : st.seq c ∈ order
      · simp [hmem]
      · simp [hmem]
    simp only [tokens, hmap]
    simp only [holders, hproc, Proc.callInfos, List.map_append, List.count_append, hcount]
    by_cases hmem : st.seq c ∈ order
    · by_cases hin : st.InMap c
      · rw [if_neg (fun h => h.1 hmem), if_pos ⟨hmem, hin⟩, if_pos hin]
        omega
      · rw [if_neg (fun h => h.1 hmem), if_neg (fun h => hin h.2), if_neg hin]
        omega
    · by_cases hin : st.InMap c
      · rw [if_pos ⟨hmem, hin⟩, if_neg (fun h => hmem h.1), if_pos hin]
        omega
      · rw [if_neg (fun h => hin h.2), if_neg (fun h => hmem h.1), if_neg hin]
        omega
  · -- a call with this deadline that can be found has been taken
    intro other hother
    rcases List.mem_cons.mp hother with rfl | hold
    · right
      intro c hc hmap heq
      obtain ⟨set, hset, hmem⟩ := hst.deadline c hc
      rw [heq] at hset
      rw [hset, Option.getD_some] at horder
      simp only [InMap, takeAll_fst, horder.mem_iff.mpr hmem, if_true] at hmap
      cases hmap
    · left
      rw [hproc]
      exact hold
  · exact fun hrun => Proc.noConfusion (hproc.symm.trans (hst.off hrun))

/-- The end of a sweep: the deadlines gone through leave the tree. -/
theorem Books.sweepEnd (hst : Books opts st) {swept : List Int} {callInfos : List CallInfo}
    (hproc : st.proc = .sweeping [] swept callInfos) (nowMs : Int) :
    Books opts (st.sweepEnd nowMs) := by
  have hremoved : Books opts { st with timeouts := st.timeouts.removeAll swept } := by
    apply hst.timeouts
    intro c hc
    rw [Timeouts.has_removeAll]
    refine ⟨hst.deadline c hc, fun hmem => ?_⟩
    have hkey : st.expireAt c ∈ st.proc.swept := by
      rw [hproc]
      exact hmem
    exact hst.swept _ hkey c hc rfl
  rw [sweepEnd_of_sweeping hproc]
  apply hremoved.other
  · rw [hproc]
    rfl
  · exact fun _ h => absurd h List.not_mem_nil
  · exact fun hrun => Proc.noConfusion (hproc.symm.trans (hst.off hrun))

/-! ## Every step -/

theorem Books.proc (hst : Books opts st) {old : Proc} (hproc : st.proc = old) (proc : Proc)
    (trig : Bool) (hstarted : old ≠ .off) (hinfos : proc.callInfos = old.callInfos)
    (hswept : proc.swept = []) : Books opts { st with trig := trig, proc := proc } := by
  subst hproc
  apply hst.other proc st.runTimeout hinfos
  · rw [hswept]
    nofun
  · exact fun hrun => absurd (hst.off hrun) hstarted

theorem Books.insert (hst : Books opts st) {c : CallId} (hpc : st.pc c = .registered)
    (hidle : st.proc.isSweeping = false) : Books opts (st.insert c) := by
  have hadded : Books opts { st with timeouts := st.timeouts.add (st.expireAt c) (st.seq c) } :=
    hst.timeouts fun d hd => (Timeouts.has_add ..).mpr (.inl (hst.deadline d hd))
  exact hadded.setPc hpc .inserted id rfl nofun (fun _ => .inl rfl) fun _ =>
    .inr ⟨(Timeouts.has_add ..).mpr (.inr ⟨rfl, rfl⟩), Proc.swept_of_isSweeping_eq_false hidle⟩

theorem Books.swap (hst : Books opts st) {c : CallId} (hpc : st.pc c = .inserted) :
    Books opts (st.swap c) := by
  unfold Client.swap
  split
  · exact hst.setPc hpc .posting id rfl nofun (fun _ => .inl rfl) fun _ => .inl rfl
  · next hrun =>
    have hoff := hst.off (eq_false_of_ne_true hrun)
    have hstarted := hst.other .starting true (by rw [hoff]; rfl) nofun nofun
      st.genMsgId st.syncRet st.trig st.closed st.inTime
    exact hstarted.setPc hpc .returned id rfl nofun (fun _ => .inl rfl) fun _ => .inl rfl

theorem Books.deregister (hst : Books opts st) {c : CallId} (hpc : st.pc c = .leaving ret) :
    Books opts (st.deregister c) := by
  have hout := hst.unregister hpc
  rw [deregister_of_leaving hpc]
  apply hout.setPc hpc (.closing ret) id rfl _ (fun _ => .inl rfl) nofun
  intro _
  right
  intro x info hentry howner
  have hx : st.seq info.owner = x := (hout.entry x info hentry).1
  rw [howner] at hx
  rw [← hx] at hentry
  simp at hentry

theorem Books.recv (hst : Books opts st) (msg : Response) : Books opts (st.recv msg) := by
  unfold Client.recv
  cases hentry : st.waitRsps msg.seq with
  | none => exact hst.other st.proc st.runTimeout rfl (fun _ h => h) hst.off _ _ _ _ _
  | some info =>
    by_cases hsync : info.sync = true
    · simp only [hsync, if_true]
      exact hst.other st.proc st.runTimeout rfl (fun _ h => h) hst.off _ _ _ _ _
    · simp only [hsync]
      have hheld := hst.hold hentry (eq_false_of_ne_true hsync)
      exact hheld.other st.proc st.runTimeout rfl (fun _ h => h) hst.off _ _ _ _ _

theorem Books.tidy (hst : Books opts st) (hmem : held ∈ st.tidying) :
    Books opts (st.tidy held) := by
  unfold Client.tidy
  split
  · exact (hst.dropped hmem).tidied hmem
  · exact hst.tidied hmem

/-- **Every step keeps the books.** -/
theorem Books.step (hst : Books opts st) {a : Action} (henabled : st.Enabled a)
    (hfresh : st.NoReuse a) : Books opts (st.next opts a) := by
  cases a with
  | begin c => exact hst.begin henabled hfresh
  | write c =>
    exact hst.setPc henabled.1 .written (fun _ => trivial) rfl nofun (fun _ => .inl rfl) nofun
  | writeFails c => exact hst.setPc henabled .failed (fun _ => trivial) rfl nofun nofun nofun
  | register c nowMs => exact hst.register henabled.1 henabled.2
  | insert c => exact hst.insert henabled.1 henabled.2
  | swap c => exact hst.swap henabled
  | post c =>
    have hposted := hst.other st.proc st.runTimeout rfl (fun _ h => h) hst.off
      st.genMsgId st.syncRet true st.closed st.inTime
    exact hposted.setPc henabled .returned id rfl nofun (fun _ => .inl rfl) fun _ => .inl rfl
  | takeRet c =>
    have htaken := hst.other st.proc st.runTimeout rfl (fun _ h => h) hst.off
      st.genMsgId (Function.update st.syncRet c none) st.trig st.closed st.inTime
    rcases henabled.1 with hpc | hpc
    all_goals
      exact htaken.setPc hpc (.leaving (st.syncRet c)) id rfl (fun _ => .inl rfl)
        (fun _ => .inl rfl) nofun
  | ctxDone c =>
    exact hst.setPc henabled .givingUp id rfl (fun _ => .inl rfl) (fun _ => .inl rfl) nofun
  | lastLook c =>
    exact hst.setPc henabled.1 (.leaving none) id rfl (fun _ => .inl rfl)
      (fun _ => .inl rfl) nofun
  | deregister c =>
    obtain ⟨ret, hpc⟩ := henabled
    exact hst.deregister hpc
  | closeRet c =>
    obtain ⟨ret, hpc⟩ := henabled
    show Books opts (st.closeRet c)
    rw [closeRet_of_closing hpc]
    exact hst.setPc hpc (.done ret) id rfl nofun nofun nofun
  | recv msg => exact hst.recv msg
  | tidy held => exact hst.tidy henabled.1
  | deliver held => exact hst.deliver henabled
  | startRead =>
    show Books opts st.startRead
    unfold Client.startRead
    split <;> exact hst.proc henabled _ st.trig nofun rfl rfl
  | takeSignal =>
    obtain ⟨⟨expireAt, hproc⟩, -⟩ := henabled
    show Books opts st.takeSignal
    rw [takeSignal_of_waiting hproc]
    exact hst.proc hproc _ false nofun rfl rfl
  | readLeft =>
    obtain ⟨expireAt, hproc⟩ := henabled
    show Books opts st.readLeft
    unfold Client.readLeft
    simp only [hproc]
    split <;> exact hst.proc hproc _ st.trig nofun rfl rfl
  | fire nowMs =>
    obtain ⟨expireAt, hproc⟩ := henabled
    exact hst.proc hproc _ st.trig nofun rfl rfl
  | sweepKey order =>
    obtain ⟨key, left, swept, callInfos, hproc, horder⟩ := henabled
    exact hst.sweepKey hproc horder
  | sweepEnd nowMs =>
    obtain ⟨swept, callInfos, hproc⟩ := henabled
    exact hst.sweepEnd hproc nowMs
  | sendTimeout =>
    obtain ⟨expireAt, info, rest, hproc⟩ := henabled
    exact hst.sendTimeout hproc
  | rearm =>
    obtain ⟨expireAt, hproc⟩ := henabled
    show Books opts st.rearm
    rw [rearm_of_sending hproc]
    exact hst.proc hproc _ st.trig nofun rfl rfl
  | close => exact hst.other st.proc st.runTimeout rfl (fun _ h => h) hst.off _ _ _ _ _
  | quit =>
    obtain ⟨⟨expireAt, hproc⟩, -⟩ := henabled
    exact hst.proc hproc _ st.trig nofun rfl rfl

/-! ## The law of asynchronous calls -/

/-- What is promised to an asynchronous call. -/
structure Tracked (opts : CallId → CallOption) (st : Client) (c : CallId) : Prop where
  once : (st.results c).length ≤ 1
  passThrough : ∀ result ∈ st.results c, result.passThrough = (opts c).passThrough
  /-- without a result it lies in `waitRsps`, or one goroutine is about to send it -/
  place : (st.pc c).isRegistered = true → st.results c = [] →
    (st.InMap c ∧ st.holders c = 0) ∨ (¬ st.InMap c ∧ st.holders c = 1)
  /-- once `asyncCallWait` has returned, its deadline is known -/
  deadline : st.InMap c → (opts c).timeout.isSome = true → st.pc c = .returned →
    st.timeouts.Has (st.expireAt c) (st.seq c)

theorem run_books {ok : Client → Action → Prop} (hok : ∀ st a, ok st a → st.NoReuse a)
    (hrun : (client opts).Run ok st) : Books opts st :=
  hrun.invariant books_init fun s a hs henabled h => hs.step henabled (hok s a h)

/-- **An asynchronous call gets at most one result and is tracked until then**,
in every run that reuses no number while a call with it is pending. -/
theorem run_tracked (opts : CallId → CallOption) {st : Client} (hrun : (client opts).Run NoReuse st)
    {c : CallId} (hkind : (opts c).kind = .async) : Tracked opts st c := by
  have hst : Books opts st := run_books (fun _ _ h => h) hrun
  refine ⟨?_, fun result hresult => (hst.result c result hresult).2, ?_, ?_⟩
  · have hle := hst.tokens_le hkind
    omega
  · intro hregistered hnil
    have htoken := hst.token c hkind
    rw [hregistered, if_pos rfl, tokens, hnil, List.length_nil] at htoken
    by_cases hmap : st.InMap c
    · rw [if_pos hmap] at htoken
      exact .inl ⟨hmap, by omega⟩
    · rw [if_neg hmap] at htoken
      exact .inr ⟨hmap, by omega⟩
  · intro hmap hsome hpc
    have hregistered : (st.pc c).isRegistered = true := by
      rw [hpc]
      rfl
    apply hst.deadline c ⟨hkind, hmap, hst.timeout c hkind hregistered hsome, _⟩
    rw [hpc]
    rfl

/-- A response that arrives between the two registrations of its call: the
receiver holds the call, and `asyncCallWait` goes on to enter its deadline. -/
theorem run_tracked_early_response :
    Tracked tenMillis ((client tenMillis).after
      [.begin 0, .write 0, .register 0 1, .recv ⟨1, 0⟩, .insert 0] {}) 0 := by
  refine run_tracked tenMillis (System.Run.of_admits .start ?_) rfl
  refine ⟨rfl, fun d hd => (nomatch hd.1), ⟨rfl, rfl⟩, trivial, ⟨rfl, by decide⟩, trivial, ?_,
    trivial, ⟨rfl, rfl⟩, trivial, trivial⟩
  intro info hentry hsync
  cases hentry
  cases hsync

end Client

end Gokit.Rpc
