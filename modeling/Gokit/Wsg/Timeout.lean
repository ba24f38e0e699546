/-
# No connection escapes the handshake timeout

The ledger of a server is the queue as a list of nodes, each with the connection
it was pushed for.  The invariant says how the ledger, the two channels, the node
pointers of the connections and the step the ticker is in agree.  It is kept by
every step of every goroutine, so it holds in every interleaving: between two
cases of the ticker the pointer of a connection is the node that holds it, a node
is removed only while it holds the connection it is removed for, and a connection
that is still to complete its handshake is where the timeout will find it.
-/

import Gokit.Wsg.Handshake

namespace Gokit.Wsg.Handshake

open Gokit.Math Gokit.Ds.Static

/-! ## What the ticker is about to do -/

namespace Ticker

/-- The node that is in the queue while no connection points at it. -/
def loose : Ticker → List Ptr
  | storing _ node | removing _ node | popping _ _ node => [node]
  | _ => []

/-- The node the ticker works on, and the connection it holds. -/
def target : Ticker → List (Ptr × ConnId)
  | storing c node => [(node, c.conn)]
  | removing conn node => [(node, conn)]
  | expired _ c node | closing _ c node | clearing _ c node | popping _ c node => [(node, c.conn)]
  | _ => []

/-- The connection whose early removal is under way. -/
def leaving : Ticker → List ConnId
  | gotOver conn | swapping conn | removing conn _ => [conn]
  | _ => []

/-- The connection whose deadline has been dealt with. -/
def doomed : Ticker → List ConnId
  | clearing _ c _ | popping _ c _ => [c.conn]
  | _ => []

end Ticker

/-- The io goroutine is past the handshake, whatever its outcome. -/
def Io.Past (io : Io) : Prop := io ≠ .fresh ∧ io ≠ .handshaking

/-! ## The ledger -/

/-- The nodes of the queue with what they hold. -/
abbrev Items : Type := List (Ptr × HandshakingConn)

/-- The elements of the queue: its values are pointers. -/
def Items.elems (items : Items) : Elems (Option HandshakingConn) :=
  items.map fun item => (item.1, some item.2)

def Items.Holds (items : Items) (node : Ptr) (c : ConnId) : Prop :=
  ∃ h, (node, h) ∈ items ∧ h.conn = c

def Items.conns (items : Items) : List ConnId := items.map fun item => item.2.conn

namespace Items

variable {items front back : Items} {node node' : Ptr} {c d : ConnId} {h : HandshakingConn}

theorem elems_append : Items.elems (front ++ back) = front.elems ++ back.elems := List.map_append

theorem elems_cons (item : Ptr × HandshakingConn) :
    Items.elems (item :: items) = (item.1, some item.2) :: items.elems := List.map_cons

theorem conns_append : Items.conns (front ++ back) = front.conns ++ back.conns := List.map_append

theorem conns_cons (item : Ptr × HandshakingConn) :
    Items.conns (item :: items) = item.2.conn :: items.conns := List.map_cons

theorem mem_elems (hmem : (node, h) ∈ items) : (node, some h) ∈ items.elems :=
  List.mem_map.mpr ⟨_, hmem, rfl⟩

theorem mem_conns : c ∈ items.conns ↔ ∃ node, items.Holds node c := by
  constructor
  · intro hmem
    obtain ⟨item, hitem, rfl⟩ := List.mem_map.mp hmem
    exact ⟨item.1, item.2, hitem, rfl⟩
  · rintro ⟨node, h, hmem, rfl⟩
    exact List.mem_map.mpr ⟨_, hmem, rfl⟩

/-- A node that holds a connection is an element of the queue. -/
theorem Holds.exists_split (hholds : items.Holds node c) :
    ∃ front h back, items = front ++ (node, h) :: back ∧ h.conn = c := by
  obtain ⟨h, hmem, hconn⟩ := hholds
  obtain ⟨front, back, rfl⟩ := List.append_of_mem hmem
  exact ⟨front, h, back, rfl, hconn⟩

theorem Holds.node_unique (hnodup : items.conns.Nodup) (hholds : items.Holds node c)
    (hholds' : items.Holds node' c) : node = node' := by
  obtain ⟨h, hmem, hconn⟩ := hholds
  obtain ⟨h', hmem', hconn'⟩ := hholds'
  exact congrArg Prod.fst
    (List.inj_on_of_nodup_map hnodup hmem hmem' (hconn.trans hconn'.symm))

theorem Holds.conn_unique (hnodup : (items.map Prod.fst).Nodup) (hholds : items.Holds node c)
    (hholds' : items.Holds node d) : c = d := by
  obtain ⟨h, hmem, rfl⟩ := hholds
  obtain ⟨h', hmem', rfl⟩ := hholds'
  rw [congrArg (fun item => item.2.conn) (List.inj_on_of_nodup_map hnodup hmem hmem' rfl)]

end Items

/-- Everything the timeout will still look at. -/
def Server.tracking (st : Server) (items : Items) : List ConnId :=
  st.handshakingWait.map (·.conn) ++ (st.ticker.hands ++ items.conns)

/-- The ledger agrees with the server. -/
structure Books (st : Server) (items : Items) : Prop where
  once : (st.tracking items).Nodup
  opened : ∀ c ∈ st.tracking items, st.io c ≠ .fresh
  tracked : ∀ c, st.io c = .handshaking → st.asked c = false → c ∈ st.tracking items
  /-- a connection points at the node that holds it, unless the ticker has it -/
  node : ∀ c p, st.qnode c = some p ↔ p ∉ st.ticker.loose ∧ items.Holds p c
  target : ∀ p c, (p, c) ∈ st.ticker.target → items.Holds p c
  upgraded : ∀ c, st.upgraded c = true → (st.io c).Past
  posted : ∀ c ∈ st.handshakingOver, (st.io c).Past
  leaving : ∀ c ∈ st.ticker.leaving, (st.io c).Past
  doomed : ∀ c ∈ st.ticker.doomed, (st.io c).Past ∨ st.asked c = true

variable {queue : Queue (Option HandshakingConn)}

namespace Books

variable {st : Server} {items : Items}

theorem conns_nodup (hb : Books st items) : items.conns.Nodup :=
  (List.nodup_append.mp (List.nodup_append.mp hb.once).2.1).2.1

/-! ## The steps of the io goroutines -/

variable {asked : ConnId → Bool} {c : ConnId}

/-- What an io goroutine does once it is done with the handshake of its connection,
and when it fails to open it. -/
theorem leave (hb : Books st items) {pc : Io} {posted : List ConnId} {upgraded : ConnId → Bool}
    (hpast : pc.Past) (hover : ∀ d ∈ posted, d = c ∨ d ∈ st.handshakingOver)
    (hasked : ∀ d, st.asked d = true → asked d = true)
    (hupgraded : ∀ d, upgraded d = true → d = c ∨ st.upgraded d = true) :
    Books { st with
      io := Function.update st.io c pc, asked := asked, upgraded := upgraded,
      handshakingOver := posted } items := by
  have hio : ∀ d, d = c ∨ (st.io d).Past → (Function.update st.io c pc d).Past := by
    intro d hd
    by_cases heq : d = c
    · rw [heq, Function.update_self]
      exact hpast
    · rw [Function.update_of_ne heq]
      exact hd.resolve_left heq
  refine { hb with
    opened := ?opened, tracked := ?tracked, upgraded := ?upgraded, posted := ?posted,
    leaving := ?leaving, doomed := ?doomed }
  case opened =>
    intro d hd
    show Function.update st.io c pc d ≠ .fresh
    by_cases heq : d = c
    · rw [heq, Function.update_self]
      exact hpast.1
    · rw [Function.update_of_ne heq]
      exact hb.opened d hd
  case tracked =>
    intro d hd hask
    have hne : d ≠ c := by
      rintro rfl
      exact hpast.2 ((Function.update_self ..).symm.trans hd)
    refine hb.tracked d ((Function.update_of_ne hne ..).symm.trans hd) ?_
    exact eq_false_of_ne_true fun htrue => Bool.false_ne_true (hask.symm.trans (hasked d htrue))
  case upgraded => exact fun d hd => hio d ((hupgraded d hd).imp_right (hb.upgraded d))
  case posted => exact fun d hd => hio d ((hover d hd).imp_right (hb.posted d))
  case leaving => exact fun d hd => hio d (.inr (hb.leaving d hd))
  case doomed => exact fun d hd => (hb.doomed d hd).imp (fun h => hio d (.inr h)) (hasked d)

theorem leave_io (hb : Books st items) {pc : Io} (hpast : pc.Past) : Books (st.setIo c pc) items :=
  hb.leave hpast (fun _ => .inr) (fun _ => id) (fun _ => .inr)

theorem update_asked (c d : ConnId) (h : asked d = true) :
    Function.update asked c true d = true := by
  by_cases heq : d = c
  · rw [heq, Function.update_self]
  · rw [Function.update_of_ne heq]
    exact h

theorem close (hb : Books st items) (c : ConnId) : Books (st.close c) items :=
  hb.leave ⟨nofun, nofun⟩ (fun _ => .inr) (update_asked c) (fun _ => .inr)

theorem upgrade (hb : Books st items) (c : ConnId) : Books (st.upgrade c) items := by
  refine hb.leave ⟨nofun, nofun⟩ (fun _ => .inr) (fun _ => id) fun d hd => ?_
  by_cases heq : d = c
  · exact .inl heq
  · exact .inr ((Function.update_of_ne heq ..).symm.trans hd)

theorem return' (hb : Books st items) (c : ConnId) (caller : Caller) :
    Books (st.return' c caller) items := by
  cases caller with
  | handshake => exact hb.leave_io ⟨nofun, nofun⟩
  | onTraffic => exact hb.close c

theorem load (hb : Books st items) (c : ConnId) : Books (st.load c) items := by
  unfold Server.load
  split
  · split
    · exact hb.leave_io ⟨nofun, nofun⟩
    · exact hb.return' c _
  · exact hb

theorem post (hb : Books st items) (c : ConnId) : Books (st.post c) items := by
  unfold Server.post
  split
  · rename_i caller hio
    split
    · have hpast : (st.io c).Past := by
        rw [hio]
        exact ⟨nofun, nofun⟩
      have hb' : Books { st with handshakingOver := st.handshakingOver ++ [c] } items := by
        refine { hb with posted := ?posted }
        intro d hd
        rcases List.mem_append.mp hd with hd | hd
        · exact hb.posted d hd
        · rw [List.mem_singleton.mp hd]
          exact hpast
      exact hb'.return' c caller
    · exact hb.return' c caller
  · exact hb

/-- `OnOpen` posts the connection before it returns. -/
theorem open' (hb : Books st items) (hfresh : st.io c = .fresh) (deadline : Int) :
    Books (st.open' c deadline) items := by
  have hnew : c ∉ st.tracking items := fun hmem => hb.opened c hmem hfresh
  have hperm : ((st.open' c deadline).tracking items).Perm (c :: st.tracking items) := by
    show ((st.handshakingWait ++ [HandshakingConn.mk deadline c]).map (·.conn) ++ _).Perm _
    rw [List.map_append, List.append_assoc]
    exact List.perm_middle
  have hne : ∀ d, (st.io d).Past → d ≠ c := by
    rintro d hd rfl
    exact hd.1 hfresh
  have hio : ∀ d, (st.io d).Past → ((st.open' c deadline).io d).Past := by
    intro d hd
    show (Function.update st.io c .handshaking d).Past
    rw [Function.update_of_ne (hne d hd)]
    exact hd
  refine { hb with
    once := hperm.nodup_iff.mpr (List.nodup_cons.mpr ⟨hnew, hb.once⟩)
    opened := ?opened, tracked := ?tracked
    upgraded := fun d hd => hio d (hb.upgraded d hd)
    posted := fun d hd => hio d (hb.posted d hd)
    leaving := fun d hd => hio d (hb.leaving d hd)
    doomed := fun d hd => (hb.doomed d hd).imp_left (hio d) }
  case opened =>
    intro d hd
    show Function.update st.io c .handshaking d ≠ .fresh
    rcases List.mem_cons.mp (hperm.mem_iff.mp hd) with rfl | hold
    · rw [Function.update_self]
      nofun
    · have hne : d ≠ c := by
        rintro rfl
        exact hnew hold
      rw [Function.update_of_ne hne]
      exact hb.opened d hold
  case tracked =>
    intro d hd hasked
    rw [hperm.mem_iff, List.mem_cons]
    by_cases heq : d = c
    · exact .inl heq
    · exact .inr (hb.tracked d ((Function.update_of_ne heq ..).symm.trans hd) hasked)

/-! ## The steps of the ticker -/

variable {t : Ticker}

/-- The ticker goes on to its next step, and may ask a connection to close. -/
theorem move (hb : Books st items) (hhands : t.hands = st.ticker.hands)
    (hloose : t.loose = st.ticker.loose) (htarget : ∀ p c, (p, c) ∈ t.target → items.Holds p c)
    (hleaving : ∀ c ∈ t.leaving, (st.io c).Past)
    (hdoomed : ∀ c ∈ t.doomed, (st.io c).Past ∨ asked c = true)
    (hasked : ∀ c, st.asked c = true → asked c = true) :
    Books { st with ticker := t, asked := asked } items := by
  have htracking : Server.tracking { st with ticker := t, asked := asked } items =
      st.tracking items := by
    show _ ++ (t.hands ++ _) = _
    rw [hhands]
    rfl
  refine { hb with
    once := htracking ▸ hb.once
    opened := htracking ▸ hb.opened
    tracked := ?tracked, node := ?node, target := htarget, leaving := hleaving, doomed := hdoomed }
  case tracked =>
    intro c hc hask
    rw [htracking]
    refine hb.tracked c hc ?_
    exact eq_false_of_ne_true fun htrue => Bool.false_ne_true (hask.symm.trans (hasked c htrue))
  case node =>
    show ∀ c p, st.qnode c = some p ↔ p ∉ t.loose ∧ _
    rw [hloose]
    exact hb.node

/-- The ticker returns to its `select` with nothing in its hands. -/
theorem rest (hb : Books st items) (hidle : t = .select ∨ t = .stopped ∨
    ∃ nowMs, t = .sweeping nowMs) (hhands : st.ticker.hands = []) (hloose : st.ticker.loose = []) :
    Books { st with ticker := t } items := by
  have ht : t.hands = [] ∧ t.loose = [] ∧ t.target = [] ∧ t.leaving = [] ∧ t.doomed = [] := by
    rcases hidle with rfl | rfl | ⟨_, rfl⟩ <;> exact ⟨rfl, rfl, rfl, rfl, rfl⟩
  refine hb.move (ht.1.trans hhands.symm) (ht.2.1.trans hloose.symm) ?_ ?_ ?_ fun _ => id
  · simp [ht.2.2.1]
  · simp [ht.2.2.2.1]
  · simp [ht.2.2.2.2]

/-- The ticker lets go of a connection that needs no timeout any more. -/
theorem letGo (hb : Books st items) (hhands : st.ticker.hands = [c]) (hloose : st.ticker.loose = [])
    (hdone : (st.io c).Past ∨ asked c = true) (hasked : ∀ d, st.asked d = true → asked d = true) :
    Books { st with ticker := .select, asked := asked } items := by
  have hperm : (st.tracking items).Perm
      (c :: Server.tracking { st with ticker := .select, asked := asked } items) := by
    show (_ ++ (st.ticker.hands ++ _)).Perm _
    rw [hhands]
    exact List.perm_middle
  have honce := List.nodup_cons.mp (hperm.nodup_iff.mp hb.once)
  refine { hb with
    once := honce.2
    opened := fun d hd => hb.opened d (hperm.mem_iff.mpr (List.mem_cons_of_mem _ hd))
    tracked := ?tracked, node := ?node, target := nofun, leaving := nofun, doomed := nofun }
  case tracked =>
    intro d hd hask
    have hask' : st.asked d = false :=
      eq_false_of_ne_true fun htrue => Bool.false_ne_true (hask.symm.trans (hasked d htrue))
    rcases List.mem_cons.mp (hperm.mem_iff.mp (hb.tracked d hd hask')) with rfl | hmem
    · rcases hdone with hpast | htrue
      · exact absurd hd hpast.2
      · exact absurd (hask.symm.trans htrue) Bool.false_ne_true
    · exact hmem
  case node =>
    intro c p
    have hnode := hb.node c p
    rw [hloose] at hnode
    exact hnode

variable {p : Ptr}

/-- The ticker takes the pointer to the node it works on out of its connection. -/
theorem detach (hb : Books st items) (hdistinct : (items.map Prod.fst).Nodup)
    (hhands : t.hands = st.ticker.hands) (hloose : st.ticker.loose = []) (hloose' : t.loose = [p])
    (hholds : items.Holds p c) (htarget : t.target = [(p, c)])
    (hleaving : ∀ c ∈ t.leaving, c ∈ st.ticker.leaving)
    (hdoomed : ∀ c ∈ t.doomed, c ∈ st.ticker.doomed) :
    Books { st with qnode := Function.update st.qnode c none, ticker := t } items := by
  have htracking : Server.tracking
      { st with qnode := Function.update st.qnode c none, ticker := t } items =
      st.tracking items := by
    show _ ++ (t.hands ++ _) = _
    rw [hhands]
    rfl
  refine { hb with
    once := htracking ▸ hb.once
    opened := htracking ▸ hb.opened
    tracked := htracking ▸ hb.tracked
    node := ?node, target := ?target
    leaving := fun d hd => hb.leaving d (hleaving d hd)
    doomed := fun d hd => hb.doomed d (hdoomed d hd) }
  case node =>
    intro d p'
    show Function.update st.qnode c none d = some p' ↔ p' ∉ t.loose ∧ _
    rw [hloose', List.mem_singleton]
    by_cases heq : d = c
    · subst heq
      rw [Function.update_self]
      constructor
      · nofun
      · rintro ⟨hne, hholds'⟩
        exact absurd (hholds'.node_unique hb.conns_nodup hholds) hne
    · rw [Function.update_of_ne heq, hb.node d p', hloose]
      constructor
      · rintro ⟨_, hholds'⟩
        refine ⟨?_, hholds'⟩
        rintro rfl
        exact heq (hholds'.conn_unique hdistinct hholds)
      · rintro ⟨_, hholds'⟩
        exact ⟨List.not_mem_nil, hholds'⟩
  case target =>
    intro p' d hmem
    have hmem : (p', d) ∈ t.target := hmem
    rw [htarget, List.mem_singleton] at hmem
    obtain ⟨rfl, rfl⟩ := Prod.mk.inj hmem
    exact hholds

/-- The ticker removes the node it has detached. -/
theorem shrink {front back : Items} {h : HandshakingConn} (hb : Books st (front ++ (p, h) :: back))
    (hdistinct : ((front ++ (p, h) :: back).map Prod.fst).Nodup)
    (hidle : t = .select ∨ ∃ nowMs, t = .sweeping nowMs) (hhands : st.ticker.hands = [])
    (hloose : st.ticker.loose = [p]) (hdone : (st.io h.conn).Past ∨ st.asked h.conn = true) :
    Books { st with handshakingQueue := queue, ticker := t } (front ++ back) := by
  have ht : t.hands = [] ∧ t.loose = [] ∧ t.target = [] ∧ t.leaving = [] ∧ t.doomed = [] := by
    rcases hidle with rfl | ⟨_, rfl⟩ <;> exact ⟨rfl, rfl, rfl, rfl, rfl⟩
  have hperm : (st.tracking (front ++ (p, h) :: back)).Perm
      (h.conn :: Server.tracking { st with handshakingQueue := queue, ticker := t }
        (front ++ back)) := by
    show (_ ++ (st.ticker.hands ++ _)).Perm (_ :: (_ ++ (t.hands ++ _)))
    rw [hhands, ht.1, Items.conns_append, Items.conns_cons, Items.conns_append, List.nil_append,
      List.nil_append, ← List.append_assoc, ← List.append_assoc]
    exact List.perm_middle
  have honce := List.nodup_cons.mp (hperm.nodup_iff.mp hb.once)
  have hp : p ∉ (front ++ back).map Prod.fst := by
    rw [List.map_append, List.map_cons, List.nodup_middle] at hdistinct
    rw [List.map_append]
    exact (List.nodup_cons.mp hdistinct).1
  have hholds : ∀ p' d, Items.Holds (front ++ back) p' d ↔
      p' ≠ p ∧ Items.Holds (front ++ (p, h) :: back) p' d := by
    intro p' d
    constructor
    · rintro ⟨h', hmem, hconn⟩
      refine ⟨?_, h', ?_, hconn⟩
      · rintro rfl
        exact hp (List.mem_map.mpr ⟨_, hmem, rfl⟩)
      · rw [List.mem_append] at hmem ⊢
        exact hmem.imp_right (List.mem_cons_of_mem _)
    · rintro ⟨hne, h', hmem, hconn⟩
      refine ⟨h', ?_, hconn⟩
      rw [List.mem_append, List.mem_cons] at hmem
      rw [List.mem_append]
      refine hmem.imp_right fun hmem => hmem.resolve_left fun heq => hne (Prod.mk.inj heq).1
  refine { hb with
    once := honce.2
    opened := fun d hd => hb.opened d (hperm.mem_iff.mpr (List.mem_cons_of_mem _ hd))
    tracked := ?tracked, node := ?node, target := ?target, leaving := ?leaving, doomed := ?doomed }
  case tracked =>
    intro d hd hask
    rcases List.mem_cons.mp (hperm.mem_iff.mp (hb.tracked d hd hask)) with rfl | hmem
    · rcases hdone with hpast | htrue
      · exact absurd hd hpast.2
      · exact absurd (hask.symm.trans htrue) Bool.false_ne_true
    · exact hmem
  case node =>
    intro d p'
    show st.qnode d = some p' ↔ p' ∉ t.loose ∧ _
    rw [hb.node d p', hloose, ht.2.1, hholds, List.mem_singleton]
    simp
  case target => simp [ht.2.2.1]
  case leaving => simp [ht.2.2.2.1]
  case doomed => simp [ht.2.2.2.2]

/-- The ticker pushes the connection it has received. -/
theorem push (hb : Books st items) {c : HandshakingConn} (hnew : p ∉ items.map Prod.fst)
    (hhands : st.ticker.hands = [c.conn]) (hloose : st.ticker.loose = []) :
    Books { st with handshakingQueue := queue, ticker := .storing c p } (items ++ [(p, c)]) := by
  have hperm : (st.tracking items).Perm (Server.tracking
      { st with handshakingQueue := queue, ticker := .storing c p } (items ++ [(p, c)])) := by
    show (_ ++ (st.ticker.hands ++ _)).Perm (_ ++ ([] ++ _))
    rw [hhands, Items.conns_append, List.nil_append]
    exact List.perm_append_comm.append_left _
  have hholds : ∀ p' d, Items.Holds (items ++ [(p, c)]) p' d ↔
      items.Holds p' d ∨ p' = p ∧ c.conn = d := by
    intro p' d
    constructor
    · rintro ⟨h, hmem, hconn⟩
      rcases List.mem_append.mp hmem with hmem | hmem
      · exact .inl ⟨h, hmem, hconn⟩
      · obtain ⟨rfl, rfl⟩ := Prod.mk.inj (List.mem_singleton.mp hmem)
        exact .inr ⟨rfl, hconn⟩
    · rintro (⟨h, hmem, hconn⟩ | ⟨rfl, hconn⟩)
      · exact ⟨h, List.mem_append_left _ hmem, hconn⟩
      · exact ⟨c, List.mem_append_right _ (List.mem_singleton_self _), hconn⟩
  refine { hb with
    once := hperm.nodup_iff.mp hb.once
    opened := fun d hd => hb.opened d (hperm.mem_iff.mpr hd)
    tracked := fun d hd hask => hperm.mem_iff.mp (hb.tracked d hd hask)
    node := ?node, target := ?target, leaving := nofun, doomed := nofun }
  case node =>
    intro d p'
    show st.qnode d = some p' ↔ p' ∉ [p] ∧ _
    rw [hb.node d p', hloose, hholds, List.mem_singleton]
    constructor
    · rintro ⟨_, hholds'⟩
      refine ⟨?_, .inl hholds'⟩
      rintro rfl
      obtain ⟨h, hmem, _⟩ := hholds'
      exact hnew (List.mem_map.mpr ⟨_, hmem, rfl⟩)
    · rintro ⟨hne, hholds' | ⟨heq, _⟩⟩
      · exact ⟨List.not_mem_nil, hholds'⟩
      · exact absurd heq hne
  case target =>
    intro p' d hmem
    obtain ⟨rfl, rfl⟩ := Prod.mk.inj (List.mem_singleton.mp hmem)
    exact (hholds _ _).mpr (.inr ⟨rfl, rfl⟩)

/-- The ticker stores the node it has pushed. -/
theorem store (hb : Books st items) (hdistinct : (items.map Prod.fst).Nodup) {c : HandshakingConn}
    (hticker : st.ticker = .storing c p) :
    Books { st with
      qnode := Function.update st.qnode c.conn (some p), ticker := .select } items := by
  have hholds : items.Holds p c.conn := by
    refine hb.target p c.conn ?_
    rw [hticker]
    exact List.mem_singleton_self _
  have hhands : st.ticker.hands = [] := by rw [hticker]; rfl
  have htracking : Server.tracking { st with
      qnode := Function.update st.qnode c.conn (some p), ticker := .select } items =
      st.tracking items := by
    show _ ++ ([] ++ _) = _ ++ (st.ticker.hands ++ _)
    rw [hhands]
  refine { hb with
    once := htracking ▸ hb.once
    opened := htracking ▸ hb.opened
    tracked := htracking ▸ hb.tracked
    node := ?node, target := nofun, leaving := nofun, doomed := nofun }
  intro d p'
  show Function.update st.qnode c.conn (some p) d = some p' ↔ p' ∉ [] ∧ _
  by_cases heq : d = c.conn
  · subst heq
    rw [Function.update_self]
    constructor
    · rintro h
      obtain rfl := Option.some.inj h
      exact ⟨List.not_mem_nil, hholds⟩
    · rintro ⟨_, hholds'⟩
      rw [hholds.node_unique hb.conns_nodup hholds']
  · have hloose : st.ticker.loose = [p] := by rw [hticker]; rfl
    rw [Function.update_of_ne heq, hb.node d p', hloose, List.mem_singleton]
    constructor
    · rintro ⟨_, hholds'⟩
      exact ⟨List.not_mem_nil, hholds'⟩
    · rintro ⟨_, hholds'⟩
      refine ⟨?_, hholds'⟩
      rintro rfl
      exact heq (hholds'.conn_unique hdistinct hholds)

theorem recvWait (hb : Books st items) (hticker : st.ticker = .select) :
    Books st.recvWait items := by
  unfold Server.recvWait
  split
  · rename_i c rest hwait
    have hperm : (st.tracking items).Perm (Server.tracking
        { st with handshakingWait := rest, ticker := .gotWait c } items) := by
      show (_ ++ (st.ticker.hands ++ _)).Perm (_ ++ ([c.conn] ++ _))
      rw [hwait, hticker]
      exact List.perm_middle.symm
    refine { hb with
      once := hperm.nodup_iff.mp hb.once
      opened := fun d hd => hb.opened d (hperm.mem_iff.mpr hd)
      tracked := fun d hd hask => hperm.mem_iff.mp (hb.tracked d hd hask)
      node := ?node, target := nofun, leaving := nofun, doomed := nofun }
    have hnode := hb.node
    rw [hticker] at hnode
    exact hnode
  · exact hb

theorem recvOver (hb : Books st items) (hticker : st.ticker = .select) :
    Books st.recvOver items := by
  unfold Server.recvOver
  split
  · rename_i conn rest hover
    have hconn : ∀ d ∈ conn :: rest, (st.io d).Past := hover ▸ hb.posted
    have hb' : Books { st with handshakingOver := rest } items :=
      { hb with posted := fun d hd => hconn d (List.mem_cons_of_mem _ hd) }
    refine hb'.move ?_ ?_ nofun ?_ nofun fun _ => id
    · show [] = st.ticker.hands
      rw [hticker]
      rfl
    · show [] = st.ticker.loose
      rw [hticker]
      rfl
    · intro d hd
      rw [List.mem_singleton.mp hd]
      exact hconn conn List.mem_cons_self
  · exact hb

end Books

/-! ## Runs -/

/-- The queue is the ledger, the ledger agrees with the server, and nothing has
faulted. -/
structure Inv (st : Server) (items : Items) (frees : List Ptr) : Prop where
  rep : Rep none st.handshakingQueue items.elems frees
  books : Books st items
  alive : st.ticker ≠ .crashed

/-- The invariant, for some ledger. -/
abbrev Kept (st : Server) : Prop := ∃ items frees, Inv st items frees

namespace Inv

variable {st : Server} {items : Items} {frees : List Ptr}

theorem handles_elems (items : Items) : handles items.elems = items.map Prod.fst := by
  rw [handles, Items.elems, List.map_map]
  rfl

theorem distinct (hinv : Inv st items frees) : (items.map Prod.fst).Nodup := by
  have hnodup := (List.nodup_cons.mp hinv.rep.nodup).2
  rw [handles_elems] at hnodup
  exact (List.nodup_append.mp hnodup).1

/-- The loop of `PopRange` finds the first node of the ledger. -/
theorem front_spec (hinv : Inv st items frees) :
    Server.front st.handshakingQueue =
      .ok (items.head?.map fun item => (item.1, some item.2)) := by
  have hempty := hinv.rep.isEmpty_spec
  cases items with
  | nil =>
    have hisEmpty : st.handshakingQueue.isEmpty = .ok true := hempty.1
    simp [Server.front, hisEmpty]
  | cons item rest =>
    have hisEmpty : st.handshakingQueue.isEmpty = .ok false := hempty.1
    have hnext := hempty.2 _ _ (Items.elems_cons item)
    obtain ⟨slot, hderef, hvalue⟩ := hinv.rep.deref_live (Items.mem_elems List.mem_cons_self)
    simp [Server.front, hisEmpty, hnext, hderef, hvalue]

variable {p : Ptr}

theorem remove_spec {h : HandshakingConn} {front back : Items}
    (hinv : Inv st (front ++ (p, h) :: back) frees) :
    ∃ q, st.handshakingQueue.remove p = .ok q ∧
      Rep none q (Items.elems (front ++ back)) (p :: frees) := by
  have hrep := hinv.rep
  rw [Items.elems_append, Items.elems_cons] at hrep
  obtain ⟨q, hremove, hrep', _⟩ := hrep.remove_spec
  rw [← Items.elems_append] at hrep'
  exact ⟨q, hremove, hrep'⟩

variable {c : HandshakingConn}

theorem advance_pushing (hinv : Inv st items frees) (hticker : st.ticker = .pushing c) :
    Kept st.advance := by
  have hhands : st.ticker.hands = [c.conn] := by rw [hticker]; rfl
  have hloose : st.ticker.loose = [] := by rw [hticker]; rfl
  cases frees with
  | nil =>
    have hpush := hinv.rep.push_full (some c)
    simp only [Server.advance, hticker, hpush]
    exact ⟨items, [], hinv.rep,
      hinv.books.move hhands.symm hloose.symm nofun nofun nofun fun _ => id, nofun⟩
  | cons p frees =>
    obtain ⟨q, hpush, hrep, _⟩ := hinv.rep.push_free (some c)
    simp only [Server.advance, hticker, hpush]
    have hnew : p ∉ items.map Prod.fst := by
      rw [← handles_elems]
      exact fun hmem => hinv.rep.not_mem_ring List.mem_cons_self (List.mem_cons_of_mem _ hmem)
    refine ⟨items ++ [(p, c)], frees, ?_, hinv.books.push hnew hhands hloose, nofun⟩
    rw [Items.elems_append]
    exact hrep

variable {nowMs : Int}

theorem advance_sweeping (hinv : Inv st items frees) (hticker : st.ticker = .sweeping nowMs) :
    Kept st.advance := by
  have hhands : st.ticker.hands = [] := by rw [hticker]; rfl
  have hloose : st.ticker.loose = [] := by rw [hticker]; rfl
  have hrest : Inv { st with ticker := .select } items frees :=
    ⟨hinv.rep, hinv.books.rest (.inl rfl) hhands hloose, nofun⟩
  simp only [Server.advance, hticker, hinv.front_spec]
  cases items with
  | nil => exact ⟨[], frees, hrest⟩
  | cons item rest =>
    by_cases hlater : item.2.deadline > nowMs
    · simp only [List.head?_cons, Option.map_some, if_pos hlater]
      exact ⟨_, frees, hrest⟩
    · simp only [List.head?_cons, Option.map_some, if_neg hlater]
      refine ⟨_, frees, hinv.rep,
        hinv.books.move hhands.symm hloose.symm ?_ nofun nofun fun _ => id, nofun⟩
      intro p d hmem
      obtain ⟨rfl, rfl⟩ := Prod.mk.inj (List.mem_singleton.mp hmem)
      exact ⟨item.2, List.mem_cons_self, rfl⟩

/-- The node the ticker is about to remove is in the queue, and holds the
connection it is removed for. -/
theorem holds_removal (hinv : Inv st items frees) {c : ConnId}
    (hremoval : st.ticker.removal = some (p, c)) : items.Holds p c := by
  refine hinv.books.target p c ?_
  revert hremoval
  cases st.ticker <;> simp [Ticker.removal, Ticker.target] <;> grind

theorem advance_remove (hinv : Inv st items frees) {c : ConnId} {t : Ticker}
    (hremoval : st.ticker.removal = some (p, c))
    (hidle : t = .select ∨ ∃ nowMs, t = .sweeping nowMs) (hloose : st.ticker.loose = [p])
    (hdone : (st.io c).Past ∨ st.asked c = true)
    (hadvance : ∀ q, st.handshakingQueue.remove p = .ok q →
      st.advance = { st with handshakingQueue := q, ticker := t }) : Kept st.advance := by
  obtain ⟨front, h, back, rfl, rfl⟩ := (hinv.holds_removal hremoval).exists_split
  obtain ⟨q, hremove, hrep⟩ := hinv.remove_spec
  have hhands : st.ticker.hands = [] := by
    revert hremoval
    cases st.ticker <;> simp [Ticker.removal, Ticker.hands]
  rw [hadvance q hremove]
  refine ⟨front ++ back, p :: frees, hrep,
    hinv.books.shrink hinv.distinct hidle hhands hloose hdone, ?_⟩
  rcases hidle with rfl | ⟨_, rfl⟩ <;> nofun

theorem advance_gotWait (hinv : Inv st items frees) (hticker : st.ticker = .gotWait c) :
    Kept st.advance := by
  have hb := hinv.books
  have hhands : st.ticker.hands = [c.conn] := by rw [hticker]; rfl
  have hloose : st.ticker.loose = [] := by rw [hticker]; rfl
  cases hupgraded : st.upgraded c.conn with
  | true =>
    simp only [Server.advance, hticker, hupgraded, if_true]
    exact ⟨items, frees, hinv.rep,
      hb.letGo hhands hloose (.inl (hb.upgraded _ hupgraded)) fun _ => id, nofun⟩
  | false =>
    simp only [Server.advance, hticker, hupgraded, Bool.false_eq_true, if_false]
    exact ⟨items, frees, hinv.rep,
      hb.move hhands.symm hloose.symm nofun nofun nofun fun _ => id, nofun⟩

theorem advance_gotOver (hinv : Inv st items frees) {conn : ConnId}
    (hticker : st.ticker = .gotOver conn) : Kept st.advance := by
  have hb := hinv.books
  have hhands : st.ticker.hands = [] := by rw [hticker]; rfl
  have hloose : st.ticker.loose = [] := by rw [hticker]; rfl
  have hleaving := hb.leaving
  rw [hticker] at hleaving
  simp only [Server.advance, hticker]
  split
  · exact ⟨items, frees, hinv.rep,
      hb.move hhands.symm hloose.symm nofun hleaving nofun fun _ => id, nofun⟩
  · exact ⟨items, frees, hinv.rep, hb.rest (.inl rfl) hhands hloose, nofun⟩

theorem advance_swapping (hinv : Inv st items frees) {conn : ConnId}
    (hticker : st.ticker = .swapping conn) : Kept st.advance := by
  have hb := hinv.books
  have hhands : st.ticker.hands = [] := by rw [hticker]; rfl
  have hloose : st.ticker.loose = [] := by rw [hticker]; rfl
  have hleaving : st.ticker.leaving = [conn] := by rw [hticker]; rfl
  cases hnode : st.qnode conn with
  | none =>
    simp only [Server.advance, hticker, hnode]
    exact ⟨items, frees, hinv.rep, hb.rest (.inl rfl) hhands hloose, nofun⟩
  | some p =>
    simp only [Server.advance, hticker, hnode]
    refine ⟨items, frees, hinv.rep, ?_, nofun⟩
    exact hb.detach hinv.distinct hhands.symm hloose rfl ((hb.node conn p).mp hnode).2 rfl
      (fun d hd => hleaving ▸ hd) nofun

theorem advance_expired (hinv : Inv st items frees) (hticker : st.ticker = .expired nowMs c p) :
    Kept st.advance := by
  have hb := hinv.books
  have hhands : st.ticker.hands = [] := by rw [hticker]; rfl
  have hloose : st.ticker.loose = [] := by rw [hticker]; rfl
  have htarget : ∀ p' d, (p', d) ∈ [(p, c.conn)] → items.Holds p' d := by
    have htarget := hb.target
    rw [hticker] at htarget
    exact htarget
  cases hupgraded : st.upgraded c.conn with
  | true =>
    simp only [Server.advance, hticker, hupgraded, if_true]
    refine ⟨items, frees, hinv.rep,
      hb.move hhands.symm hloose.symm htarget nofun ?_ fun _ => id, nofun⟩
    intro d hd
    rw [List.mem_singleton.mp hd]
    exact .inl (hb.upgraded _ hupgraded)
  | false =>
    simp only [Server.advance, hticker, hupgraded, Bool.false_eq_true, if_false]
    exact ⟨items, frees, hinv.rep,
      hb.move hhands.symm hloose.symm htarget nofun nofun fun _ => id, nofun⟩

theorem advance_closing (hinv : Inv st items frees) (hticker : st.ticker = .closing nowMs c p) :
    Kept st.advance := by
  have hb := hinv.books
  have hhands : st.ticker.hands = [] := by rw [hticker]; rfl
  have hloose : st.ticker.loose = [] := by rw [hticker]; rfl
  have htarget := hb.target
  rw [hticker] at htarget
  simp only [Server.advance, hticker]
  refine ⟨items, frees, hinv.rep,
    hb.move hhands.symm hloose.symm htarget nofun ?_ (Books.update_asked _), nofun⟩
  intro d hd
  rw [List.mem_singleton.mp hd]
  exact .inr (Function.update_self ..)

theorem advance_clearing (hinv : Inv st items frees) (hticker : st.ticker = .clearing nowMs c p) :
    Kept st.advance := by
  have hb := hinv.books
  have hhands : st.ticker.hands = [] := by rw [hticker]; rfl
  have hloose : st.ticker.loose = [] := by rw [hticker]; rfl
  have hdoomed : st.ticker.doomed = [c.conn] := by rw [hticker]; rfl
  have hholds : items.Holds p c.conn :=
    hb.target p c.conn (by rw [hticker]; exact List.mem_singleton_self _)
  simp only [Server.advance, hticker]
  refine ⟨items, frees, hinv.rep, ?_, nofun⟩
  exact hb.detach hinv.distinct hhands.symm hloose rfl hholds rfl nofun
    (fun d hd => hdoomed ▸ hd)

/-- **Every step of the ticker keeps the books.** -/
theorem advance (hinv : Inv st items frees) : Kept st.advance := by
  have hb := hinv.books
  cases hticker : st.ticker with
  | select | stopped =>
    simp only [Server.advance, hticker]
    exact ⟨items, frees, hinv⟩
  | crashed => exact absurd hticker hinv.alive
  | gotWait c => exact hinv.advance_gotWait hticker
  | pushing c => exact hinv.advance_pushing hticker
  | storing c p =>
    simp only [Server.advance, hticker]
    exact ⟨items, frees, hinv.rep, hb.store hinv.distinct hticker, nofun⟩
  | refusing c =>
    have hhands : st.ticker.hands = [c.conn] := by rw [hticker]; rfl
    have hloose : st.ticker.loose = [] := by rw [hticker]; rfl
    simp only [Server.advance, hticker]
    exact ⟨items, frees, hinv.rep, hb.letGo hhands hloose (.inr (Function.update_self ..))
      (Books.update_asked _), nofun⟩
  | gotOver conn => exact hinv.advance_gotOver hticker
  | swapping conn => exact hinv.advance_swapping hticker
  | removing conn p =>
    refine hinv.advance_remove (by rw [hticker]; rfl) (.inl rfl) (by rw [hticker]; rfl)
      (.inl (hb.leaving conn (by rw [hticker]; exact List.mem_singleton_self _))) ?_
    intro q hremove
    simp only [Server.advance, hticker, hremove]
  | sweeping nowMs => exact hinv.advance_sweeping hticker
  | expired nowMs c p => exact hinv.advance_expired hticker
  | closing nowMs c p => exact hinv.advance_closing hticker
  | clearing nowMs c p => exact hinv.advance_clearing hticker
  | popping nowMs c p =>
    refine hinv.advance_remove (by rw [hticker]; rfl) (.inr ⟨nowMs, rfl⟩)
      (by rw [hticker]; rfl)
      (hb.doomed c.conn (by rw [hticker]; exact List.mem_singleton_self _)) ?_
    intro q hremove
    simp only [Server.advance, hticker, hremove]

/-- A step that leaves the queue and the ticker alone. -/
theorem of_books (hinv : Inv st items frees) {st' : Server}
    (hqueue : st'.handshakingQueue = st.handshakingQueue) (hticker : st'.ticker = st.ticker)
    (hb : Books st' items) : Inv st' items frees :=
  ⟨hqueue ▸ hinv.rep, hb, hticker ▸ hinv.alive⟩

end Inv

theorem return'_fields (st : Server) (c : ConnId) (caller : Caller) :
    (st.return' c caller).handshakingQueue = st.handshakingQueue ∧
      (st.return' c caller).ticker = st.ticker := by
  cases caller <;> exact ⟨rfl, rfl⟩

theorem load_fields (st : Server) (c : ConnId) :
    (st.load c).handshakingQueue = st.handshakingQueue ∧ (st.load c).ticker = st.ticker := by
  unfold Server.load
  split
  · split
    · exact ⟨rfl, rfl⟩
    · exact return'_fields st c _
  · exact ⟨rfl, rfl⟩

theorem post_fields (st : Server) (c : ConnId) :
    (st.post c).handshakingQueue = st.handshakingQueue ∧ (st.post c).ticker = st.ticker := by
  unfold Server.post
  split
  · split
    · exact return'_fields _ c _
    · exact return'_fields st c _
  · exact ⟨rfl, rfl⟩

/-- **Every step of every goroutine keeps the invariant.** -/
theorem Inv.next {st : Server} {items : Items} {frees : List Ptr} {a : Action}
    (hinv : Inv st items frees) (henabled : st.Enabled a) : Kept (st.next a) := by
  have hb := hinv.books
  cases a with
  | «open» c deadline => exact ⟨items, frees, hinv.of_books rfl rfl (hb.open' henabled.1 deadline)⟩
  | busy c | reject c => exact ⟨items, frees, hinv.of_books rfl rfl (hb.close c)⟩
  | fail c | accept c | refuse c | hangup c =>
    exact ⟨items, frees, hinv.of_books rfl rfl (hb.leave_io ⟨nofun, nofun⟩)⟩
  | upgrade c => exact ⟨items, frees, hinv.of_books rfl rfl (hb.upgrade c)⟩
  | load c =>
    have hfields := load_fields st c
    exact ⟨items, frees, hinv.of_books hfields.1 hfields.2 (hb.load c)⟩
  | post c =>
    have hfields := post_fields st c
    exact ⟨items, frees, hinv.of_books hfields.1 hfields.2 (hb.post c)⟩
  | recvWait =>
    refine ⟨items, frees, ?_, hb.recvWait henabled.1, ?_⟩ <;>
      show _ <;> simp only [Server.next, Server.recvWait] <;> split
    · exact hinv.rep
    · exact hinv.rep
    · nofun
    · exact hinv.alive
  | recvOver =>
    refine ⟨items, frees, ?_, hb.recvOver henabled.1, ?_⟩ <;>
      show _ <;> simp only [Server.next, Server.recvOver] <;> split
    · exact hinv.rep
    · exact hinv.rep
    · nofun
    · exact hinv.alive
  | fire nowMs =>
    have hticker : st.ticker = .select := henabled
    exact ⟨items, frees, hinv.rep,
      hb.rest (.inr (.inr ⟨nowMs, rfl⟩)) (by rw [hticker]; rfl) (by rw [hticker]; rfl), nofun⟩
  | quit =>
    have hticker : st.ticker = .select := henabled
    exact ⟨items, frees, hinv.rep,
      hb.rest (.inr (.inl rfl)) (by rw [hticker]; rfl) (by rw [hticker]; rfl), nofun⟩
  | advance => exact hinv.advance

theorem inv_init {size : Nat} (hnew : Queue.newQueue size none = .ok queue) :
    Inv (server queue).init [] (List.range' 1 size) := by
  obtain ⟨q, hq, _, hrep⟩ := rep_newQueue size (none : Option HandshakingConn)
  obtain rfl := Except.ok.inj (hq.symm.trans hnew)
  refine ⟨hrep, ?_, nofun⟩
  constructor
  case node =>
    intro c p
    constructor
    · nofun
    · rintro ⟨_, _, hmem, _⟩
      exact absurd hmem List.not_mem_nil
  case once => exact List.nodup_nil
  all_goals nofun

/-- **The handshake timeout misses no connection and removes no wrong node.**  In every
state of every interleaving, whatever the size of the queue:
nothing has faulted;
between two cases of the ticker, a connection points at a node iff that node is in the
queue and holds the connection;
a node about to be removed is in the queue and holds the connection it is removed for;
and a connection that `OnOpen` has accepted and whose handshake has neither succeeded nor
failed, unless it has been asked to close, is in `handshakingWait`, in the hands of the
ticker or in the queue. -/
theorem run_ledger {size : Nat} (hnew : Queue.newQueue size none = .ok queue) {st : Server}
    (hrun : (server queue).Run (fun _ _ => True) st) :
    st.ticker ≠ .crashed ∧ ∃ items frees, Rep none st.handshakingQueue (Items.elems items) frees ∧
      (st.ticker.Between → ∀ c node, st.qnode c = some node ↔ items.Holds node c) ∧
      (∀ node c, st.ticker.removal = some (node, c) → items.Holds node c) ∧
      ∀ c, st.io c = .handshaking → st.asked c = false →
        c ∈ st.handshakingWait.map (·.conn) ∨ c ∈ st.ticker.hands ∨
          ∃ node, items.Holds node c := by
  have hkept : Kept (server queue).init := ⟨_, _, inv_init hnew⟩
  obtain ⟨items, frees, hinv⟩ := hrun.invariant hkept
    fun s a ⟨_, _, hinv⟩ henabled _ => hinv.next henabled
  refine ⟨hinv.alive, items, frees, hinv.rep, ?_, fun _ _ => hinv.holds_removal, ?_⟩
  · intro hbetween c node
    have hloose : st.ticker.loose = [] := by
      rcases hbetween with h | h <;> rw [h] <;> rfl
    rw [hinv.books.node c node, hloose]
    exact and_iff_right List.not_mem_nil
  · intro c hio hasked
    have hmem := hinv.books.tracked c hio hasked
    rw [Server.tracking, List.mem_append, List.mem_append, Items.mem_conns] at hmem
    exact hmem

/-- A connection is pushed, upgraded and posted, and its node is about to be removed. -/
theorem run_ledger_removal :
    ∃ queue st, Queue.newQueue 1 none = .ok queue ∧ (server queue).Run (fun _ _ => True) st ∧
      st.ticker = .removing 0 1 ∧ ∃ items frees,
        Rep none st.handshakingQueue (Items.elems items) frees ∧ items.Holds 1 0 := by
  let actions : List Action := [.open 0 50, .recvWait, .advance, .advance, .advance, .upgrade 0,
    .load 0, .post 0, .recvOver, .advance, .advance]
  obtain ⟨queue, hnew⟩ : ∃ queue, Queue.newQueue 1 (none : Option HandshakingConn) = .ok queue :=
    ⟨_, rfl⟩
  have hrun : (server queue).Run (fun _ _ => True) ((server queue).after actions
      (server queue).init) := by
    refine System.Run.start.of_admits ?_
    obtain rfl := Except.ok.inj hnew
    refine ⟨⟨rfl, by decide⟩, trivial, ⟨rfl, nofun⟩, trivial, ⟨nofun, nofun, nofun⟩, trivial,
      ⟨nofun, nofun, nofun⟩, trivial, ⟨nofun, nofun, nofun⟩, trivial, rfl, trivial, ⟨_, rfl⟩,
      trivial, ⟨_, rfl⟩, trivial, ⟨rfl, nofun⟩, trivial, ⟨nofun, nofun, nofun⟩, trivial,
      ⟨nofun, nofun, nofun⟩, trivial, trivial⟩
  have hticker : ((server queue).after actions (server queue).init).ticker = .removing 0 1 := by
    obtain rfl := Except.ok.inj hnew
    decide +kernel
  obtain ⟨_, items, frees, hrep, _, hremoval, _⟩ := run_ledger hnew hrun
  refine ⟨queue, _, hnew, hrun, hticker, items, frees, hrep, hremoval 1 0 ?_⟩
  rw [hticker]
  rfl

end Gokit.Wsg.Handshake
