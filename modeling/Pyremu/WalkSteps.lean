import Pyremu.PageTable

/-!
# The walk in atomic steps

Between two accesses of a walk another hart may write the page tables. Here every
read and every compare-exchange of an entry is a step of its own. Without other
harts the steps add up to `sv39Walk`.
-/

namespace Pyremu

/-- What the walk does next. `top` tells the root table from the middle one, and
`big` a 2 MiB leaf from a 4 KiB leaf. -/
inductive WalkPc where
  | read (top : Bool) (addr : Word)
  | setA (top : Bool) (addr raw : Word)
  | reread (top : Bool) (addr : Word)
  | leafRead (addr : Word)
  | leafCas (big : Bool) (addr raw : Word)
  | leafReread (big : Bool) (addr : Word)
  | done (r : Except TranslateFault (Option TranslateResult))
  deriving DecidableEq

/-- What a walk is asked for. -/
structure WalkReq where
  satp : Word
  va : Word
  rwx : Rwx
  deriving DecidableEq

namespace WalkReq

def start (q : WalkReq) : WalkPc :=
  if q.satp >>> 60 ≠ satpModeSv39 then .done (.ok none)
  else .read true (pteAddr (satpRootPpn q.satp) (sv39DecomposeVa q.va).vpn2)

def result (q : WalkReq) (big : Bool) (pte : PteFields) : TranslateResult :=
  let v := sv39DecomposeVa q.va
  if big then l1Result pte.ppn pte.perm v.vpn0 v.offset else l0Result pte.ppn pte.perm v.offset

/-- A leaf has been read: check its permissions and see whether bits are missing. -/
def leaf (q : WalkReq) (s : HartState) (big : Bool) (addr raw : Word) : WalkPc :=
  let pte := pteParse raw
  let needPerm := ptePermNeeded q.rwx (mxr s.mstatus)
  let wantA := decide (raw &&& Pte.A = 0)
  let wantD := hasWrite q.rwx && decide (raw &&& Pte.D = 0)
  if pte.perm &&& needPerm ≠ needPerm then .done (.ok none)
  else if !wantA && !wantD then .done (.ok (some (q.result big pte)))
  else .leafCas big addr raw

/-- An entry of the root or of the middle table is known and has A set. -/
def descend (q : WalkReq) (s : HartState) (top : Bool) (addr raw : Word) : WalkPc :=
  let pte := pteParse raw
  let v := sv39DecomposeVa q.va
  if top then if !pte.isPtr then .done (.ok none) else .read false (pteAddr pte.ppn v.vpn1)
  else if pte.isLeaf then q.leaf s true addr raw
  else .leafRead (pteAddr pte.ppn v.vpn0)

/-- One atomic step. -/
def step (q : WalkReq) (s : HartState) (p : PmpCtx) (c : WalkCtx) : WalkPc → WalkCtx × WalkPc
  | .read top addr =>
    match readPteChecked s p c addr with
    | .error e => (c, .done (.error e))
    | .ok raw =>
      if (pteParse raw).unusable then (c, .done (.ok none))
      else if raw &&& Pte.A ≠ 0 then (c, q.descend s top addr raw)
      else (c, .setA top addr raw)
  | .setA top addr raw =>
    match writePteCasChecked s p c addr raw (raw ||| Pte.A) with
    | (c, .error e) => (c, .done (.error e))
    | (c, .ok true) => (c, q.descend s top addr raw)
    | (c, .ok false) => (c, .reread top addr)
  | .reread top addr =>
    match readPteChecked s p c addr with
    | .error e => (c, .done (.error e))
    | .ok raw =>
      if (pteParse raw).unusable then (c, .done (.ok none)) else (c, q.descend s top addr raw)
  | .leafRead addr =>
    match readPteChecked s p c addr with
    | .error e => (c, .done (.error e))
    | .ok raw =>
      let pte := pteParse raw
      if !pte.v || !pte.isLeaf then (c, .done (.ok none)) else (c, q.leaf s false addr raw)
  | .leafCas big addr raw =>
    match writePteCasChecked s p c addr raw (leafUpdate raw q.rwx) with
    | (c, .error e) => (c, .done (.error e))
    | (c, .ok true) => (c, .done (.ok (some (q.result big (pteParse raw)))))
    | (c, .ok false) => (c, .leafReread big addr)
  | .leafReread big addr =>
    match readPteChecked s p c addr with
    | .error e => (c, .done (.error e))
    | .ok raw =>
      let pte := pteParse raw
      let needPerm := ptePermNeeded q.rwx (mxr s.mstatus)
      if !pte.v || !pte.isLeaf then (c, .done (.ok none))
      else if pte.perm &&& needPerm ≠ needPerm then (c, .done (.ok none))
      else (c, .done (.ok (some (q.result big pte))))
  | .done r => (c, .done r)

/-! ## Without other harts -/

/-- A number of steps of the walk alone. -/
def Reaches (q : WalkReq) (s : HartState) (p : PmpCtx) : WalkCtx × WalkPc → WalkCtx × WalkPc → Prop :=
  Relation.ReflTransGen fun a b => b = q.step s p a.1 a.2

section Alone

variable {q : WalkReq} {s : HartState} {p : PmpCtx} {c : WalkCtx}

theorem Reaches.head {a b : WalkCtx × WalkPc} (h : q.Reaches s p (q.step s p a.1 a.2) b) :
    q.Reaches s p a b := Relation.ReflTransGen.head rfl h

theorem Reaches.one {a b : WalkCtx × WalkPc} (h : q.step s p a.1 a.2 = b) : q.Reaches s p a b :=
  Relation.ReflTransGen.single h.symm

/-- Where the steps of one level end. -/
def levelEnd (q : WalkReq) (s : HartState) (top : Bool) (addr : Word) :
    WalkCtx × Except TranslateFault (Option (Word × PteFields)) → WalkCtx × WalkPc
  | (c, .error e) => (c, .done (.error e))
  | (c, .ok none) => (c, .done (.ok none))
  | (c, .ok (some (raw, _))) => (c, q.descend s top addr raw)

theorem reaches_level (q : WalkReq) (s : HartState) (p : PmpCtx) (c : WalkCtx) (top : Bool) (ppn idx : Word) :
    q.Reaches s p (c, .read top (pteAddr ppn idx))
      (q.levelEnd s top (pteAddr ppn idx) (walkLevel c s p ppn idx)) := by
  apply Reaches.head
  simp only [step, walkLevel]
  cases readPteChecked s p c (pteAddr ppn idx) with
  | error e => exact .refl
  | ok raw =>
    dsimp only
    by_cases hu : (pteParse raw).unusable = true
    · rw [if_pos hu, if_pos hu]
      exact .refl
    · rw [if_neg hu, if_neg hu]
      by_cases hA : raw &&& Pte.A ≠ 0
      · rw [if_pos hA, if_pos hA]
        exact .refl
      · rw [if_neg hA, if_neg hA]
        apply Reaches.head
        simp only [step]
        rcases writePteCasChecked s p c (pteAddr ppn idx) raw (raw ||| Pte.A) with ⟨c', e | _ | _⟩
        · exact .refl
        · apply Reaches.head
          simp only [step]
          cases readPteChecked s p c' (pteAddr ppn idx) with
          | error e => exact .refl
          | ok raw2 =>
            dsimp only
            by_cases hu2 : (pteParse raw2).unusable = true
            · rw [if_pos hu2, if_pos hu2]
              exact .refl
            · rw [if_neg hu2, if_neg hu2]
              exact .refl
        · exact .refl

/-- A walk that has ended. -/
def walkEnd (r : WalkCtx × Except TranslateFault (Option TranslateResult)) : WalkCtx × WalkPc :=
  (r.1, .done r.2)

theorem reaches_l1Leaf (q : WalkReq) (s : HartState) (p : PmpCtx) (c : WalkCtx) (addr raw : Word) :
    let v := sv39DecomposeVa q.va
    q.Reaches s p (c, q.leaf s true addr raw)
      (walkEnd (walkL1Leaf c s p addr raw (pteParse raw).ppn (pteParse raw).perm v.vpn0 v.offset
        q.rwx)) := by
  simp only [leaf, walkL1Leaf]
  by_cases hperm : (pteParse raw).perm &&& ptePermNeeded q.rwx (mxr s.mstatus) ≠
      ptePermNeeded q.rwx (mxr s.mstatus)
  · rw [if_pos hperm, if_pos hperm]
    exact .refl
  · rw [if_neg hperm, if_neg hperm]
    split
    · exact .refl
    · apply Reaches.head
      simp only [step]
      rcases writePteCasChecked s p c addr raw (leafUpdate raw q.rwx) with ⟨c', e | _ | _⟩
      · exact .refl
      · apply Reaches.one
        simp only [step]
        cases readPteChecked s p c' addr with
        | error e => rfl
        | ok raw2 =>
          dsimp only
          by_cases hl : (!(pteParse raw2).v || !(pteParse raw2).isLeaf) = true
          · rw [if_pos hl, if_pos (by simp only [hl, Bool.true_or])]
            rfl
          · rw [if_neg hl]
            by_cases hp2 : (pteParse raw2).perm &&& ptePermNeeded q.rwx (mxr s.mstatus) ≠
                ptePermNeeded q.rwx (mxr s.mstatus)
            · rw [if_pos hp2, if_pos (by simp [hp2])]
              rfl
            · rw [if_neg hp2, if_neg (by simpa [hp2] using hl)]
              rfl
      · exact .refl

theorem reaches_l0 (q : WalkReq) (s : HartState) (p : PmpCtx) (c : WalkCtx) (ppn : Word) :
    let v := sv39DecomposeVa q.va
    q.Reaches s p (c, .leafRead (pteAddr ppn v.vpn0))
      (walkEnd (walkL0 c s p ppn v.vpn0 v.offset q.rwx)) := by
  apply Reaches.head
  simp only [step, walkL0]
  cases readPteChecked s p c (pteAddr ppn (sv39DecomposeVa q.va).vpn0) with
  | error e => exact .refl
  | ok raw =>
    dsimp only
    by_cases hl : (!(pteParse raw).v || !(pteParse raw).isLeaf) = true
    · rw [if_pos hl, if_pos hl]
      exact .refl
    · rw [if_neg hl, if_neg hl, leaf]
      by_cases hperm : (pteParse raw).perm &&& ptePermNeeded q.rwx (mxr s.mstatus) ≠
          ptePermNeeded q.rwx (mxr s.mstatus)
      · rw [if_pos hperm, if_pos hperm]
        exact .refl
      · rw [if_neg hperm, if_neg hperm]
        split
        · exact .refl
        · apply Reaches.head
          simp only [step]
          rcases writePteCasChecked s p c (pteAddr ppn (sv39DecomposeVa q.va).vpn0) raw
            (leafUpdate raw q.rwx) with ⟨c', e | _ | _⟩
          · exact .refl
          · apply Reaches.one
            simp only [step]
            cases readPteChecked s p c' (pteAddr ppn (sv39DecomposeVa q.va).vpn0) with
            | error e => rfl
            | ok raw2 =>
              dsimp only
              split
              · rfl
              · split <;> rfl
          · exact .refl

/-- Alone, the steps of a walk end where `sv39_walk` ends. -/
theorem reaches_sv39Walk (q : WalkReq) (s : HartState) (p : PmpCtx) (c : WalkCtx) :
    q.Reaches s p (c, q.start) (walkEnd (sv39Walk c s p q.satp q.va q.rwx)) := by
  simp only [start, sv39Walk]
  by_cases hm : q.satp >>> 60 ≠ satpModeSv39
  · rw [if_pos hm, if_pos hm]
    exact .refl
  · rw [if_neg hm, if_neg hm]
    have h2 := q.reaches_level s p c true (satpRootPpn q.satp) (sv39DecomposeVa q.va).vpn2
    simp only [walkL2, walkL1]
    rcases he2 : walkLevel c s p (satpRootPpn q.satp) (sv39DecomposeVa q.va).vpn2 with
      ⟨c2, e | _ | ⟨raw2, p2⟩⟩ <;> rw [he2] at h2
    · exact h2
    · exact h2
    · obtain ⟨_, rfl, _⟩ := walkLevel_some he2
      apply h2.trans
      simp only [levelEnd, descend, ↓reduceIte]
      by_cases hp : (!(pteParse raw2).isPtr) = true
      · rw [if_pos hp, if_pos hp]
        exact .refl
      · rw [if_neg hp, if_neg hp]
        have h1 := q.reaches_level s p c2 false (pteParse raw2).ppn (sv39DecomposeVa q.va).vpn1
        rcases he1 : walkLevel c2 s p (pteParse raw2).ppn (sv39DecomposeVa q.va).vpn1 with
          ⟨c1, e | _ | ⟨raw1, p1⟩⟩ <;> rw [he1] at h1
        · exact h1
        · exact h1
        · obtain ⟨_, rfl, _⟩ := walkLevel_some he1
          apply h1.trans
          simp only [levelEnd, descend, Bool.false_eq_true, ↓reduceIte]
          by_cases hl : (pteParse raw1).isLeaf = true
          · rw [if_pos hl, if_pos hl]
            exact q.reaches_l1Leaf s p c1 _ raw1
          · rw [if_neg hl, if_neg hl]
            exact q.reaches_l0 s p c1 _

end Alone

end WalkReq

end Pyremu
