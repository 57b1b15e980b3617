import Pyremu.Sittim.FdExact

/-!
# Descriptor calls over whole runs

Each call is one of a few moves on the targets of the descriptions and on the
sockets of the stack. A socket is in use exactly while a description is bound
to it, and is closed when its last descriptor goes.
-/

namespace Pyremu.Sittim

namespace Files

open Tables

variable (s : Files)

/-- Some descriptor is bound to the socket. -/
def Bound (n : Word) : Prop := ∃ fd flags, s.tables.fdEntry fd = some (.socket n, flags)

def opens (n : Word) : Nat := s.events.count (.opened n)

def closes (n : Word) : Nat := s.events.count (.closed n)

/-- The tables count exactly, and each opening of a socket is closed once, but the one still bound. -/
structure Exact : Prop where
  tables : s.tables.RefExact
  open_of_bound : ∀ n, s.Bound n → s.opens n = s.closes n + 1
  closed_of_unbound : ∀ n, ¬ s.Bound n → s.opens n = s.closes n

/-- The socket was bound or has been opened since, and no descriptor is bound to it any more. -/
def Abandoned (s s' : Files) (n : Word) : Prop := (s.Bound n ∨ s.opens n < s'.opens n) ∧ ¬ s'.Bound n

/-- A call closes a socket that it abandons once, and no other. -/
def ClosesOnLast (s : Files) (c : FdCall × Answers) : Prop :=
  ∀ n, (Abandoned s (s.step c) n → (s.step c).closes n = s.closes n + 1) ∧
    (¬ Abandoned s (s.step c) n → (s.step c).closes n = s.closes n)

/-- A call that fails changes neither table. -/
def FailsClean (s : Files) (c : FdCall × Answers) : Prop :=
  ∀ e, (s.call c.2 c.1).2 = .error e → (s.step c).tables = s.tables

/-! ## The sockets in use -/

def socketNumber (k : Fin UDP_SOCKETS) : Word := BitVec.ofNat 64 k.val

/-- Sockets in use and descriptions bound to sockets go together, one to one. -/
structure Sockets (targets : FdIndex → Option FdTarget) (isUsed : Fin UDP_SOCKETS → Bool) (netOps : Bool) : Prop where
  inUse : ∀ {i n}, targets i = some (.socket n) → ∃ k, n = socketNumber k ∧ isUsed k = true
  bound : ∀ {k}, isUsed k = true → ∃ i, targets i = some (.socket (socketNumber k))
  unique : ∀ {i j n}, targets i = some (.socket n) → targets j = some (.socket n) → i = j
  ready : ∀ {i n}, targets i = some (.socket n) → netOps = true

structure Inv : Prop where
  counted : s.tables.Owing none
  sockets : Sockets s.tables.targetAt s.isUsed s.netOps
  opened : ∀ k, s.opens (socketNumber k) = s.closes (socketNumber k) + (s.isUsed k).toNat
  others : ∀ n, (∀ k, n ≠ socketNumber k) → s.opens n = 0 ∧ s.closes n = 0

section

variable {targets : FdIndex → Option FdTarget} {isUsed : Fin UDP_SOCKETS → Bool} {netOps : Bool} {i : FdIndex}
  {k : Fin UDP_SOCKETS}

theorem socketNumber_toNat (k : Fin UDP_SOCKETS) : (socketNumber k).toNat = k.val := by
  rw [socketNumber, BitVec.toNat_ofNat]
  exact Nat.mod_eq_of_lt (k.isLt.trans (by decide))

theorem socketNumber_inj {k k' : Fin UDP_SOCKETS} (h : socketNumber k = socketNumber k') : k = k' := by
  apply Fin.ext
  rw [← socketNumber_toNat, ← socketNumber_toNat, h]

/-- A description that is not bound to a socket gets another such target. -/
theorem Sockets.retarget (h : Sockets targets isUsed netOps) {x : Option FdTarget}
    (hold : ∀ n, targets i ≠ some (.socket n)) (hnew : ∀ n, x ≠ some (.socket n)) :
    Sockets (Function.update targets i x) isUsed netOps := by
  have hsocket : ∀ {j n}, Function.update targets i x j = some (.socket n) ↔ targets j = some (.socket n) := by
    intro j n
    by_cases hj : j = i
    · subst hj
      rw [Function.update_self]
      exact iff_of_false (hnew n) (hold n)
    · rw [Function.update_of_ne hj]
  constructor
  · exact fun hi => h.inUse (hsocket.mp hi)
  · intro k hk
    obtain ⟨j, hj⟩ := h.bound hk
    exact ⟨j, hsocket.mpr hj⟩
  · exact fun hi hj => h.unique (hsocket.mp hi) (hsocket.mp hj)
  · exact fun hi => h.ready (hsocket.mp hi)

theorem Sockets.openSocket (h : Sockets targets isUsed netOps) (hfree : targets i = none) (hk : isUsed k = false) :
    Sockets (Function.update targets i (some (.socket (socketNumber k)))) (Function.update isUsed k true) true := by
  have hsocket : ∀ {j n}, Function.update targets i (some (.socket (socketNumber k))) j = some (.socket n) →
      j = i ∧ n = socketNumber k ∨ j ≠ i ∧ targets j = some (.socket n) := by
    intro j n hj
    by_cases heq : j = i
    · subst heq
      rw [Function.update_self] at hj
      exact .inl ⟨rfl, (FdTarget.socket.inj (Option.some.inj hj)).symm⟩
    · rw [Function.update_of_ne heq] at hj
      exact .inr ⟨heq, hj⟩
  have hnew : ∀ {j}, targets j ≠ some (.socket (socketNumber k)) := by
    intro j hj
    obtain ⟨k', hk', hused⟩ := h.inUse hj
    rw [← socketNumber_inj hk', hk] at hused
    cases hused
  constructor
  · intro j n hj
    rcases hsocket hj with ⟨_, rfl⟩ | ⟨_, hj⟩
    · exact ⟨k, rfl, Function.update_self ..⟩
    · obtain ⟨k', rfl, hused⟩ := h.inUse hj
      refine ⟨k', rfl, ?_⟩
      by_cases hkk : k' = k
      · subst hkk
        exact Function.update_self ..
      · rwa [Function.update_of_ne hkk]
  · intro k' hk'
    by_cases hkk : k' = k
    · subst hkk
      exact ⟨i, Function.update_self ..⟩
    · rw [Function.update_of_ne hkk] at hk'
      obtain ⟨j, hj⟩ := h.bound hk'
      refine ⟨j, ?_⟩
      rwa [Function.update_of_ne]
      rintro rfl
      rw [hfree] at hj
      cases hj
  · intro j j' n hj hj'
    rcases hsocket hj with ⟨rfl, rfl⟩ | ⟨_, hj⟩
    · rcases hsocket hj' with ⟨rfl, _⟩ | ⟨_, hj'⟩
      · rfl
      · exact absurd hj' hnew
    · rcases hsocket hj' with ⟨_, rfl⟩ | ⟨_, hj'⟩
      · exact absurd hj hnew
      · exact h.unique hj hj'
  · exact fun _ => rfl

theorem Sockets.closeSocket (h : Sockets targets isUsed netOps) (hat : targets i = some (.socket (socketNumber k))) :
    Sockets (Function.update targets i none) (Function.update isUsed k false) netOps := by
  have hsocket : ∀ {j n}, Function.update targets i none j = some (.socket n) →
      j ≠ i ∧ targets j = some (.socket n) := by
    intro j n hj
    by_cases heq : j = i
    · subst heq
      rw [Function.update_self] at hj
      cases hj
    · rw [Function.update_of_ne heq] at hj
      exact ⟨heq, hj⟩
  constructor
  · intro j n hj
    obtain ⟨hne, hj⟩ := hsocket hj
    obtain ⟨k', rfl, hused⟩ := h.inUse hj
    refine ⟨k', rfl, ?_⟩
    rwa [Function.update_of_ne]
    rintro rfl
    exact hne (h.unique hj hat)
  · intro k' hk'
    by_cases hkk : k' = k
    · subst hkk
      rw [Function.update_self] at hk'
      cases hk'
    · rw [Function.update_of_ne hkk] at hk'
      obtain ⟨j, hj⟩ := h.bound hk'
      refine ⟨j, ?_⟩
      rwa [Function.update_of_ne]
      rintro rfl
      rw [hat] at hj
      exact hkk (socketNumber_inj (FdTarget.socket.inj (Option.some.inj hj))).symm
  · exact fun hj hj' => h.unique (hsocket hj).2 (hsocket hj').2
  · exact fun hj => h.ready (hsocket hj).2

end

variable {s} {s' : Files}

theorem bound_iff (h : s.tables.Owing none) (n : Word) :
    s.Bound n ↔ ∃ i, s.tables.targetAt i = some (.socket n) := by
  constructor
  · rintro ⟨fd, flags, hfd⟩
    obtain ⟨⟨i, file⟩, hfile, heq⟩ := Option.map_eq_some_iff.mp hfd
    obtain ⟨_, _, _, _, _, hi⟩ := openFileOf_spec hfile
    refine ⟨i, ?_⟩
    rw [targetAt, hi]
    exact congrArg some (Prod.mk.inj heq).1
  · rintro ⟨i, hi⟩
    obtain ⟨file, hfile, htarget⟩ := Option.map_eq_some_iff.mp hi
    have hsome : (s.tables.openFiles i).isSome = true := by
      rw [hfile]
      rfl
    obtain ⟨j, entry, hentry, rfl⟩ := (h.refExact.occupied_iff i).mp hsome
    refine ⟨BitVec.ofNat 64 j.val, file.flags, ?_⟩
    rw [fdEntry, openFileOf_eq (fdIndex_ofNat j) hentry hfile, Option.map_some, htarget]

theorem Inv.bound_iff_isUsed (h : s.Inv) (k : Fin UDP_SOCKETS) : s.Bound (socketNumber k) ↔ s.isUsed k = true := by
  rw [bound_iff h.counted]
  constructor
  · rintro ⟨i, hi⟩
    obtain ⟨k', hk', hused⟩ := h.sockets.inUse hi
    rwa [socketNumber_inj hk']
  · exact h.sockets.bound

theorem Inv.not_bound (h : s.Inv) {n : Word} (hn : ∀ k, n ≠ socketNumber k) : ¬ s.Bound n := by
  rw [bound_iff h.counted]
  rintro ⟨i, hi⟩
  obtain ⟨k, hk, _⟩ := h.sockets.inUse hi
  exact hn k hk

theorem Inv.exact (h : s.Inv) : s.Exact := by
  refine ⟨h.counted.refExact, ?_, ?_⟩
  · intro n hn
    by_cases hk : ∃ k, n = socketNumber k
    · obtain ⟨k, rfl⟩ := hk
      rw [h.opened k, (h.bound_iff_isUsed k).mp hn]
      rfl
    · exact absurd hn (h.not_bound fun k heq => hk ⟨k, heq⟩)
  · intro n hn
    by_cases hk : ∃ k, n = socketNumber k
    · obtain ⟨k, rfl⟩ := hk
      rw [h.bound_iff_isUsed k, Bool.not_eq_true] at hn
      rw [h.opened k, hn]
      rfl
    · obtain ⟨hopens, hcloses⟩ := h.others n fun k heq => hk ⟨k, heq⟩
      rw [hopens, hcloses]

/-! ## Moves -/

/-- What a call does to the targets, the sockets in use and their history. -/
inductive Move (s s' : Files) : Prop
  | keep (htarget : s'.tables.targetAt = s.tables.targetAt) (hused : s'.isUsed = s.isUsed)
      (hevents : s'.events = s.events)
  | retarget {i : FdIndex} {x : Option FdTarget} (hold : ∀ n, s.tables.targetAt i ≠ some (.socket n))
      (hnew : ∀ n, x ≠ some (.socket n)) (htarget : s'.tables.targetAt = Function.update s.tables.targetAt i x)
      (hused : s'.isUsed = s.isUsed) (hevents : s'.events = s.events)
  | openSocket {i : FdIndex} {k : Fin UDP_SOCKETS} (hfree : s.tables.targetAt i = none) (hk : s.isUsed k = false)
      (htarget : s'.tables.targetAt = Function.update s.tables.targetAt i (some (.socket (socketNumber k))))
      (hused : s'.isUsed = Function.update s.isUsed k true)
      (hevents : s'.events = .opened (socketNumber k) :: s.events) (hready : s'.netOps = true)
  | closeSocket {i : FdIndex} {k : Fin UDP_SOCKETS} (hat : s.tables.targetAt i = some (.socket (socketNumber k)))
      (htarget : s'.tables.targetAt = Function.update s.tables.targetAt i none)
      (hused : s'.isUsed = Function.update s.isUsed k false)
      (hevents : s'.events = .closed (socketNumber k) :: s.events)
  | refuse {k : Fin UDP_SOCKETS} (hk : s.isUsed k = false) (htarget : s'.tables.targetAt = s.tables.targetAt)
      (hused : s'.isUsed = s.isUsed)
      (hevents : s'.events = .closed (socketNumber k) :: .opened (socketNumber k) :: s.events)

theorem opens_cons_opened {n m : Word} (h : s'.events = .opened m :: s.events) :
    s'.opens n = s.opens n + if m = n then 1 else 0 := by
  rw [opens, h, List.count_cons, opens]
  by_cases hm : m = n
  · rw [if_pos hm, hm, if_pos (beq_self_eq_true _)]
  · rw [if_neg hm, if_neg]
    intro heq
    exact hm (SocketEvent.opened.inj (eq_of_beq heq))

theorem closes_cons_closed {n m : Word} (h : s'.events = .closed m :: s.events) :
    s'.closes n = s.closes n + if m = n then 1 else 0 := by
  rw [closes, h, List.count_cons, closes]
  by_cases hm : m = n
  · rw [if_pos hm, hm, if_pos (beq_self_eq_true _)]
  · rw [if_neg hm, if_neg]
    intro heq
    exact hm (SocketEvent.closed.inj (eq_of_beq heq))

theorem opens_cons_closed {n m : Word} (h : s'.events = .closed m :: s.events) : s'.opens n = s.opens n := by
  rw [opens, h]
  exact List.count_cons_of_ne SocketEvent.noConfusion

theorem closes_cons_opened {n m : Word} (h : s'.events = .opened m :: s.events) : s'.closes n = s.closes n := by
  rw [closes, h]
  exact List.count_cons_of_ne SocketEvent.noConfusion

theorem Sockets.mono {targets : FdIndex → Option FdTarget} {isUsed : Fin UDP_SOCKETS → Bool} {b b' : Bool}
    (h : Sockets targets isUsed b) (hb : b = true → b' = true) : Sockets targets isUsed b' :=
  ⟨h.inUse, h.bound, h.unique, fun hi => hb (h.ready hi)⟩

theorem Inv.sockets_move (h : s.Inv) (hm : Move s s') (hops : s.netOps = true → s'.netOps = true) :
    Sockets s'.tables.targetAt s'.isUsed s'.netOps := by
  have hready := h.sockets.mono hops
  cases hm with
  | keep htarget hused hevents =>
    rw [htarget, hused]
    exact hready
  | retarget hold hnew htarget hused hevents =>
    rw [htarget, hused]
    exact hready.retarget hold hnew
  | openSocket hfree hk htarget hused hevents hops' =>
    rw [htarget, hused, hops']
    exact h.sockets.openSocket hfree hk
  | closeSocket hat htarget hused hevents =>
    rw [htarget, hused]
    exact hready.closeSocket hat
  | refuse hk htarget hused hevents =>
    rw [htarget, hused]
    exact hready

/-- Openings and closings are only added, and only sockets that are not in use are opened. -/
theorem Inv.history_move (h : s.Inv) (hm : Move s s') :
    (∀ k, s'.opens (socketNumber k) = s'.closes (socketNumber k) + (s'.isUsed k).toNat) ∧
      (∀ n, (∀ k, n ≠ socketNumber k) → s'.opens n = 0 ∧ s'.closes n = 0) ∧
      (∀ n, s.opens n ≤ s'.opens n ∧ s.closes n ≤ s'.closes n) ∧
      (∀ k, s'.opens (socketNumber k) + (s.isUsed k).toNat ≤ s.opens (socketNumber k) + 1) := by
  have hle : ∀ k, s.opens (socketNumber k) + (s.isUsed k).toNat ≤ s.opens (socketNumber k) + 1 :=
    fun k => Nat.add_le_add_left (Bool.toNat_le _) _
  have hsame : s'.isUsed = s.isUsed → s'.events = s.events →
      (∀ k, s'.opens (socketNumber k) = s'.closes (socketNumber k) + (s'.isUsed k).toNat) ∧
      (∀ n, (∀ k, n ≠ socketNumber k) → s'.opens n = 0 ∧ s'.closes n = 0) ∧
      (∀ n, s.opens n ≤ s'.opens n ∧ s.closes n ≤ s'.closes n) ∧
      (∀ k, s'.opens (socketNumber k) + (s.isUsed k).toNat ≤ s.opens (socketNumber k) + 1) := by
    intro hused hevents
    have hopens : s'.opens = s.opens := by
      funext n
      rw [opens, hevents, opens]
    have hcloses : s'.closes = s.closes := by
      funext n
      rw [closes, hevents, closes]
    rw [hused, hopens, hcloses]
    exact ⟨h.opened, h.others, fun n => ⟨le_rfl, le_rfl⟩, hle⟩
  cases hm with
  | keep htarget hused hevents => exact hsame hused hevents
  | retarget hold hnew htarget hused hevents => exact hsame hused hevents
  | openSocket hfree hk htarget hused hevents hops =>
    rename_i i k
    have hopens := fun n => opens_cons_opened (n := n) hevents
    have hcloses := fun n => closes_cons_opened (n := n) hevents
    refine ⟨fun k' => ?_, fun n hn => ?_, fun n => ?_, fun k' => ?_⟩
    · have hopened := h.opened k'
      rw [hopens, hcloses, hused]
      by_cases hkk : k' = k
      · subst hkk
        rw [hk] at hopened
        rw [if_pos rfl, Function.update_self, hopened]
        rfl
      · rw [if_neg (fun heq => hkk (socketNumber_inj heq).symm), Function.update_of_ne hkk]
        exact hopened
    · rw [hopens, hcloses, if_neg (fun heq => hn k heq.symm)]
      exact h.others n hn
    · rw [hopens, hcloses]
      exact ⟨Nat.le_add_right _ _, le_rfl⟩
    · rw [hopens]
      by_cases hkk : k' = k
      · subst hkk
        rw [if_pos rfl, hk]
        exact le_rfl
      · rw [if_neg (fun heq => hkk (socketNumber_inj heq).symm)]
        exact hle k'
  | closeSocket hat htarget hused hevents =>
    rename_i i k
    have hk : s.isUsed k = true := by
      obtain ⟨k', hk', hused'⟩ := h.sockets.inUse hat
      rwa [socketNumber_inj hk']
    have hopens := fun n => opens_cons_closed (n := n) hevents
    have hcloses := fun n => closes_cons_closed (n := n) hevents
    refine ⟨fun k' => ?_, fun n hn => ?_, fun n => ?_, fun k' => ?_⟩
    · have hopened := h.opened k'
      rw [hopens, hcloses, hused]
      by_cases hkk : k' = k
      · subst hkk
        rw [hk] at hopened
        rw [if_pos rfl, Function.update_self, hopened]
        rfl
      · rw [if_neg (fun heq => hkk (socketNumber_inj heq).symm), Function.update_of_ne hkk]
        exact hopened
    · rw [hopens, hcloses, if_neg (fun heq => hn k heq.symm)]
      exact h.others n hn
    · rw [hopens, hcloses]
      exact ⟨le_rfl, Nat.le_add_right _ _⟩
    · rw [hopens]
      exact hle k'
  | refuse hk htarget hused hevents =>
    rename_i k
    have hopens : ∀ n, s'.opens n = s.opens n + if socketNumber k = n then 1 else 0 := by
      intro n
      have hmid : ({ s with events := .opened (socketNumber k) :: s.events } : Files).opens n =
          s.opens n + if socketNumber k = n then 1 else 0 := opens_cons_opened rfl
      rw [← hmid]
      exact opens_cons_closed hevents
    have hcloses : ∀ n, s'.closes n = s.closes n + if socketNumber k = n then 1 else 0 := by
      intro n
      have hmid : ({ s with events := .opened (socketNumber k) :: s.events } : Files).closes n = s.closes n :=
        closes_cons_opened rfl
      rw [← hmid]
      exact closes_cons_closed hevents
    refine ⟨fun k' => ?_, fun n hn => ?_, fun n => ?_, fun k' => ?_⟩
    · rw [hopens, hcloses, hused, h.opened k', Nat.add_right_comm]
    · rw [hopens, hcloses, if_neg (fun heq => hn k heq.symm)]
      exact h.others n hn
    · rw [hopens, hcloses]
      exact ⟨Nat.le_add_right _ _, Nat.le_add_right _ _⟩
    · rw [hopens]
      by_cases hkk : k' = k
      · subst hkk
        rw [if_pos rfl, hk]
        exact le_rfl
      · rw [if_neg (fun heq => hkk (socketNumber_inj heq).symm)]
        exact hle k'

theorem Inv.move (h : s.Inv) (hm : Move s s') (hc : s'.tables.Owing none)
    (hops : s.netOps = true → s'.netOps = true) : s'.Inv :=
  ⟨hc, h.sockets_move hm hops, (h.history_move hm).1, (h.history_move hm).2.1⟩

/-- The closings of a call are those of the sockets it abandons. -/
theorem Inv.closes_move (h : s.Inv) (hm : Move s s') (h' : s'.Inv) (n : Word) :
    (Abandoned s s' n → s'.closes n = s.closes n + 1) ∧ (¬ Abandoned s s' n → s'.closes n = s.closes n) := by
  obtain ⟨_, _, hmono, hone⟩ := h.history_move hm
  by_cases hk : ∃ k, n = socketNumber k
  · obtain ⟨k, rfl⟩ := hk
    obtain ⟨hmo, hmc⟩ := hmono (socketNumber k)
    have hone := hone k
    have hopened := h.opened k
    have hopened' := h'.opened k
    rw [Abandoned, h.bound_iff_isUsed k, h'.bound_iff_isUsed k]
    cases hu : s.isUsed k <;> cases hu' : s'.isUsed k <;> rw [hu] at hopened hone <;> rw [hu'] at hopened' <;>
      simp only [Bool.toNat_true, Bool.toNat_false] at hopened hopened' hone <;> grind
  · have hn : ∀ k, n ≠ socketNumber k := fun k heq => hk ⟨k, heq⟩
    obtain ⟨hopens, hcloses⟩ := h.others n hn
    obtain ⟨hopens', hcloses'⟩ := h'.others n hn
    rw [Abandoned, hopens, hopens', hcloses, hcloses']
    refine ⟨?_, fun _ => rfl⟩
    rintro ⟨hb | hlt, _⟩
    · exact absurd hb (h.not_bound hn)
    · exact absurd hlt (Nat.lt_irrefl 0)

/-! ## The handlers -/

/-- What every handler does. -/
structure Handles (s : Files) (r : Files × Except Word Word) : Prop where
  counted : r.1.tables.Owing none
  move : Move s r.1
  netOps : s.netOps = true → r.1.netOps = true
  clean : ∀ e, r.2 = .error e → r.1.tables = s.tables

variable {ans : Answers} {fd : Word}

theorem Inv.handles_self (h : s.Inv) (r : Except Word Word) : Handles s (s, r) :=
  ⟨h.counted, .keep rfl rfl rfl, id, fun _ _ => rfl⟩

/-- New tables with the same targets. -/
theorem handles_tables {t : Tables} {v : Word} (hc : t.Owing none) (ht : t.targetAt = s.tables.targetAt) :
    Handles s (s.setTables t, .ok v) :=
  ⟨hc, .keep ht rfl rfl, id, fun _ he => by cases he⟩

theorem acquireNetOps_ready (h : s.netOps = true) : s.acquireNetOps ans = (s, .ok ()) := if_pos h

/-- A description goes back with its target and its count. -/
theorem Inv.handles_store (h : s.Inv) {i : FdIndex} {file file' : OpenFile} {v : Word}
    (hfile : s.tables.openFileOf fd = some (i, file)) (hrefs : file'.refs = file.refs)
    (ht : file'.target = file.target) : Handles s (s.setTables (s.tables.storeOpenFile i file'), .ok v) := by
  obtain ⟨_, _, _, _, _, hi⟩ := openFileOf_spec hfile
  exact handles_tables (h.counted.store hi hrefs) (targetAt_setOpenFile_same hi ht)

/-- A free descriptor becomes another one of an open description. -/
theorem Inv.handles_dup (h : s.Inv) {i : FdIndex} {file : OpenFile} {start newFd : Word} {descFlags : BitVec 32}
    (hfile : s.tables.openFileOf fd = some (i, file)) (htake : s.tables.takeFdSlotFrom start = some newFd) :
    Handles s (s.setTables (s.tables.dupAt newFd i file descFlags), .ok newFd) := by
  obtain ⟨_, _, _, _, _, hi⟩ := openFileOf_spec hfile
  obtain ⟨j, hj, hfree⟩ := takeFdSlotFrom_spec htake
  obtain ⟨hc, ht⟩ := h.counted.dupAt hj hi descFlags
  rw [hfree] at hc
  exact handles_tables hc ht

theorem Inv.dupHandler (h : s.Inv) : Handles s (s.dupHandler fd) := by
  rw [Files.dupHandler]
  cases hfile : s.tables.openFileOf fd with
  | none => exact h.handles_self _
  | some p =>
    dsimp only
    cases htake : s.tables.takeFdSlot with
    | none => exact h.handles_self _
    | some newFd => exact h.handles_dup hfile htake

theorem Inv.dupFd (h : s.Inv) {arg : Word} {descFlags : BitVec 32} : Handles s (s.dupFd fd arg descFlags) := by
  rw [Files.dupFd]
  cases hfile : s.tables.openFileOf fd with
  | none => exact h.handles_self _
  | some p =>
    dsimp only
    split
    · exact h.handles_self _
    · cases htake : s.tables.takeFdSlotFrom arg with
      | none => exact h.handles_self _
      | some newFd => exact h.handles_dup hfile htake

theorem Inv.setFdFlags (h : s.Inv) {arg : Word} : Handles s (s.setFdFlags fd arg) := by
  rw [Files.setFdFlags]
  cases hj : fdIndex fd with
  | none => exact h.handles_self _
  | some j =>
    dsimp only
    cases hentry : s.tables.fds j with
    | none => exact h.handles_self _
    | some entry =>
      apply handles_tables
      · apply h.counted.setFd
        rw [hentry]
        rfl
      · rfl

theorem Inv.fcntlHandler (h : s.Inv) {cmd arg : Word} : Handles s (s.fcntlHandler fd cmd arg) := by
  rw [Files.fcntlHandler]
  split
  · rw [Files.getFd]
    cases s.tables.fdSlot fd <;> exact h.handles_self _
  split
  · exact h.setFdFlags
  split
  · rw [Files.getFl]
    cases s.tables.openFileOf fd <;> exact h.handles_self _
  split
  · rw [Files.setFl]
    cases hfile : s.tables.openFileOf fd with
    | none => exact h.handles_self _
    | some p => exact h.handles_store hfile rfl rfl
  split
  · exact h.dupFd
  split
  · exact h.dupFd
  · exact h.handles_self _

theorem fdVfsOps_spec {e : Word} {i : FdIndex} {file : OpenFile} (h : s.fdVfsOps ans fd e = .ok (i, file)) :
    s.tables.openFileOf fd = some (i, file) := by
  rw [fdVfsOps] at h
  cases hfile : s.tables.openFileOf fd with
  | none =>
    rw [hfile] at h
    cases h
  | some p =>
    rw [hfile] at h
    dsimp only at h
    cases htarget : p.2.target with
    | console | socket n =>
      rw [htarget] at h
      cases h
    | vfs fs node =>
      rw [htarget] at h
      dsimp only at h
      cases hops : ans.opsOf fs with
      | error e' =>
        rw [hops] at h
        cases h
      | ok u =>
        rw [hops] at h
        exact congrArg some (Except.ok.inj h)

theorem Inv.readFile (h : s.Inv) : Handles s (s.readFile ans fd) := by
  rw [Files.readFile]
  cases hops : s.fdVfsOps ans fd EOPNOTSUPP with
  | error e => exact h.handles_self _
  | ok p =>
    dsimp only
    split
    · cases ans.io with
      | error e => exact h.handles_self _
      | ok n => exact h.handles_store (fdVfsOps_spec hops) rfl rfl
    · exact h.handles_self _

theorem Inv.readHandler (h : s.Inv) : Handles s (s.readHandler ans fd) := by
  rw [Files.readHandler]
  split
  · split <;> exact h.handles_self _
  · exact h.handles_self _
  · exact h.readFile

theorem Inv.writeFile (h : s.Inv) : Handles s (s.writeFile ans fd) := by
  rw [Files.writeFile]
  cases hops : s.fdVfsOps ans fd EOPNOTSUPP with
  | error e => exact h.handles_self _
  | ok p =>
    dsimp only
    split
    · split
      · exact h.handles_self _
      · cases ans.io with
        | error e => exact h.handles_self _
        | ok written => exact h.handles_store (fdVfsOps_spec hops) rfl rfl
    · exact h.handles_self _

theorem Inv.writeHandler (h : s.Inv) : Handles s (s.writeHandler ans fd) := by
  rw [Files.writeHandler]
  split
  · split <;> exact h.handles_self _
  · exact h.handles_self _
  · exact h.writeFile

theorem Inv.lseekHandler (h : s.Inv) {offset whence : Word} : Handles s (s.lseekHandler ans fd offset whence) := by
  rw [Files.lseekHandler]
  cases hops : s.fdVfsOps ans fd ESPIPE with
  | error e => exact h.handles_self _
  | ok p =>
    dsimp only
    cases ans.nodeSize with
    | none => exact h.handles_self _
    | some size =>
      dsimp only
      split
      · exact h.handles_self _
      · split
        · exact h.handles_self _
        · exact h.handles_store (fdVfsOps_spec hops) rfl rfl

theorem Inv.openatHandler (h : s.Inv) {flags : Word} : Handles s (s.openatHandler ans flags) := by
  rw [Files.openatHandler]
  cases ans.opened with
  | error e => exact h.handles_self _
  | ok p =>
    dsimp only
    rcases h.counted.allocFd (.vfs p.1 p.2) (flags.setWidth 32 &&& ~~~OPEN_ONLY_FLAGS)
      (flags.setWidth 32 &&& FD_FLAG_MASK) with heq | ⟨t, newFd, i, heq, hc, hfree, ht⟩
    · rw [heq]
      exact h.handles_self _
    · rw [heq]
      refine ⟨hc, .retarget (fun n hn => ?_) (fun n hn => ?_) ht rfl rfl, id, fun e he => ?_⟩
      · rw [hfree] at hn
        cases hn
      · cases hn
      · cases he

theorem Inv.installConsole (h : s.Inv) : Handles s (s.installConsole fd, .ok 0) := by
  rw [Files.installConsole]
  cases hslot : s.tables.fdSlot fd with
  | some entry => exact h.handles_self _
  | none =>
    dsimp only
    cases hj : fdIndex fd with
    | none =>
      rw [Tables.installFd, hj]
      exact h.handles_self _
    | some j =>
      rw [fdSlot, hj, Option.bind_some] at hslot
      rcases h.counted.installFd hj hslot .console (if fd = 0 then O_RDONLY else O_WRONLY) 0 with
        heq | ⟨t, i, heq, hc, hfree, ht⟩
      · rw [heq]
        exact h.handles_self _
      · rw [heq]
        refine ⟨hc, .retarget (fun n hn => ?_) (fun n hn => ?_) ht rfl rfl, id, fun e he => ?_⟩
        · rw [hfree] at hn
          cases hn
        · cases hn
        · cases he

/-- A released description gives back the socket it was bound to. -/
theorem Inv.handles_release (h : s.Inv) (ans : Answers) (v : Word) {t : Tables} {i : FdIndex} (ho : t.Owing (some i))
    (ht : t.targetAt = s.tables.targetAt) :
    Handles s (((s.setTables (t.releaseOne i).1).releaseTarget ans (t.releaseOne i).2), .ok v) := by
  have hc := ho.releaseOne
  obtain ⟨file, hfile⟩ : ∃ file, t.openFiles i = some file := by
    cases hfile : t.openFiles i with
    | some file => exact ⟨file, rfl⟩
    | none =>
      have hrefs := ho.refs i
      rw [hfile, if_pos rfl] at hrefs
      cases hrefs
  have hat : s.tables.targetAt i = some file.target := by
    rw [← ht, targetAt, hfile]
    rfl
  rcases releaseOne_target hfile with ⟨hr, htarget⟩ | ⟨hr, htarget⟩
  · rw [hr]
    exact handles_tables hc (htarget.trans ht)
  · rw [ht] at htarget
    rw [hr]
    cases hkind : file.target with
    | socket n =>
      rw [hkind] at hat
      obtain ⟨k, rfl, _⟩ := h.sockets.inUse hat
      have hready := h.sockets.ready hat
      have hlt : (socketNumber k).toNat < UDP_SOCKETS := by
        rw [socketNumber_toNat]
        exact k.isLt
      have hacquire : (s.setTables (t.releaseOne i).1).acquireNetOps ans = (s.setTables (t.releaseOne i).1, .ok ()) :=
        acquireNetOps_ready hready
      rw [releaseTarget, closeSocket, hacquire]
      dsimp only
      rw [netClose, dif_pos hlt]
      have hk : (⟨(socketNumber k).toNat, hlt⟩ : Fin UDP_SOCKETS) = k := Fin.ext (socketNumber_toNat k)
      rw [hk]
      exact ⟨hc, .closeSocket hat htarget rfl rfl, id, fun _ he => by cases he⟩
    | console | vfs fs node =>
      refine ⟨hc, .retarget (fun n hn => ?_) (fun n hn => ?_) htarget rfl rfl, id, fun _ he => by cases he⟩
      · rw [hat, hkind] at hn
        cases hn
      · cases hn

theorem Inv.closeHandler (h : s.Inv) : Handles s (s.closeHandler ans fd) := by
  rw [Files.closeHandler, Tables.closeFd]
  cases hfile : s.tables.openFileOf fd with
  | none => exact h.handles_self _
  | some p =>
    obtain ⟨i, file⟩ := p
    obtain ⟨j, entry, hj, hentry, rfl, hi⟩ := openFileOf_spec hfile
    have ho := h.counted.clear (j := j)
    rw [hentry] at ho
    have hrelease := h.handles_release ans 0 ho rfl
    rw [hj]
    dsimp only
    rcases releaseOne_target (t := s.tables.setFd j none) hi with ⟨hr, _⟩ | ⟨hr, _⟩
    all_goals
      rw [hr] at hrelease
      rw [← Prod.mk.eta (p := (s.tables.setFd j none).releaseOne entry.openFileIdx), hr]
      exact hrelease

theorem Inv.dup3Handler (h : s.Inv) {newFd flags : Word} : Handles s (s.dup3Handler ans fd newFd flags) := by
  rw [Files.dup3Handler]
  split
  · exact h.handles_self _
  split
  · exact h.handles_self _
  split
  · exact h.handles_self _
  · rename_i hlt
    cases hfile : s.tables.openFileOf fd with
    | none => exact h.handles_self _
    | some p =>
      obtain ⟨i, file⟩ := p
      obtain ⟨_, _, _, _, _, hi⟩ := openFileOf_spec hfile
      have hj : fdIndex newFd = some ⟨newFd.toNat, Nat.lt_of_not_le hlt⟩ := dif_pos _
      obtain ⟨hc, ht⟩ := h.counted.dupAt hj hi (flags.setWidth 32)
      rw [h.counted.fdOpenFileIdx hj]
      cases hold : (s.tables.fds ⟨newFd.toNat, Nat.lt_of_not_le hlt⟩).map FdEntry.openFileIdx with
      | none =>
        rw [hold] at hc
        exact handles_tables hc ht
      | some i' =>
        rw [hold] at hc
        exact h.handles_release ans newFd hc ht

theorem Inv.openSocketFd (h : s.Inv) (hready : s.netOps = true) (sockType : Word) :
    Handles s (s.openSocketFd sockType) := by
  rw [Files.openSocketFd, netOpen]
  cases hfind : (List.finRange UDP_SOCKETS).find? fun index => !s.isUsed index with
  | none => exact h.handles_self _
  | some k =>
    have hk := List.find?_some hfind
    rw [Bool.not_eq_true'] at hk
    have hlt : (socketNumber k).toNat < UDP_SOCKETS := by
      rw [socketNumber_toNat]
      exact k.isLt
    have hfin : (⟨(socketNumber k).toNat, hlt⟩ : Fin UDP_SOCKETS) = k := Fin.ext (socketNumber_toNat k)
    dsimp only
    rw [show BitVec.ofNat 64 k.val = socketNumber k from rfl]
    rcases h.counted.allocFd (.socket (socketNumber k)) (if sockType &&& 0o4000 ≠ 0 then O_NONBLOCK else 0)
      ((sockType &&& 0o2000000).setWidth 32) with heq | ⟨t, newFd, i, heq, hc, hfree, ht⟩
    · rw [heq]
      dsimp only
      rw [netClose, dif_pos hlt, hfin]
      refine ⟨h.counted, .refuse hk rfl ?_ rfl, id, fun _ _ => rfl⟩
      show Function.update (Function.update s.isUsed k true) k false = s.isUsed
      rw [Function.update_idem, ← hk]
      exact Function.update_eq_self k s.isUsed
    · rw [heq]
      exact ⟨hc, .openSocket hfree hk ht rfl rfl hready, id, fun _ he => by cases he⟩

theorem Inv.socketHandler (h : s.Inv) {domain sockType protocol : Word} :
    Handles s (s.socketHandler ans domain sockType protocol) := by
  rw [Files.socketHandler]
  split
  · exact h.handles_self _
  split
  · exact h.handles_self _
  split
  · exact h.handles_self _
  cases hready : s.netOps with
  | true =>
    rw [acquireNetOps_ready hready]
    exact h.openSocketFd hready sockType
  | false =>
    rw [acquireNetOps, hready, if_neg Bool.false_ne_true]
    cases ans.acquireNetOps with
    | error e => exact h.handles_self _
    | ok u =>
      -- the operations are cached now, and nothing else has changed
      have h₁ : ({ s with netOps := true } : Files).Inv :=
        ⟨h.counted, h.sockets.mono fun _ => rfl, h.opened, h.others⟩
      have hopen := h₁.openSocketFd rfl sockType
      refine ⟨hopen.counted, ?_, fun _ => hopen.netOps rfl, hopen.clean⟩
      cases hopen.move with
      | keep htarget hused hevents => exact .keep htarget hused hevents
      | retarget hold hnew htarget hused hevents => exact .retarget hold hnew htarget hused hevents
      | openSocket hfree hk htarget hused hevents hops => exact .openSocket hfree hk htarget hused hevents hops
      | closeSocket hat htarget hused hevents => exact .closeSocket hat htarget hused hevents
      | refuse hk htarget hused hevents => exact .refuse hk htarget hused hevents

theorem Inv.handles (h : s.Inv) (ans : Answers) (c : FdCall) : Handles s (s.call ans c) := by
  cases c with
  | installConsole fd => exact h.installConsole
  | openat flags => exact h.openatHandler
  | socket domain sockType protocol => exact h.socketHandler
  | close fd => exact h.closeHandler
  | dup oldFd => exact h.dupHandler
  | dup3 oldFd newFd flags => exact h.dup3Handler
  | fcntl fd cmd arg => exact h.fcntlHandler
  | read fd => exact h.readHandler
  | write fd => exact h.writeHandler
  | lseek fd offset whence => exact h.lseekHandler

theorem Inv.step (h : s.Inv) (c : FdCall × Answers) : (s.step c).Inv :=
  h.move (h.handles c.2 c.1).move (h.handles c.2 c.1).counted (h.handles c.2 c.1).netOps

theorem init_inv : init.Inv := by
  refine ⟨⟨fun i => ?_, fun hf => ?_⟩, ⟨fun hi => ?_, fun hk => ?_, fun hi => ?_, fun hi => ?_⟩, fun _ => rfl,
    fun _ _ => ⟨rfl, rfl⟩⟩
  · have hz : init.tables.refCount i = 0 := by
      apply Nat.eq_zero_of_not_pos
      rw [refCount_pos_iff]
      rintro ⟨fd, entry, hentry, _⟩
      cases hentry
    rw [hz]
    rfl
  · cases hf
  · cases hi
  · cases hk
  · cases hi
  · cases hi

end Files

open Files in
/-- From empty tables, in every run of calls, with any answers from outside: the counts are exact, every
socket is closed once for each opening, when its last descriptor goes, and a failing call leaves both
tables as they were. -/
theorem fd_tables_exact (l : List (FdCall × Answers)) :
    Run.Always Files.step Exact init l ∧
      Run.Along Files.step (fun s c => ClosesOnLast s c ∧ FailsClean s c) init l := by
  constructor
  · exact Run.always_of_invariant (G := fun _ _ => True) (fun s c h _ => h.step c) (fun _ h => h.exact) init_inv
      Run.along_true
  · apply Run.along_of_invariant (I := Inv) (fun s c h => h.step c) _ init_inv
    intro s c h
    exact ⟨h.closes_move (h.handles c.2 c.1).move (h.step c), (h.handles c.2 c.1).clean⟩

end Pyremu.Sittim
