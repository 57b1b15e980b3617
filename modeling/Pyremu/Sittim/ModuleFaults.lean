import Pyremu.Sittim.ModuleTable

/-!
# What a module fault leaves behind

Windows of images never overlap, so a fault is attributed to the module whose
image it is in, and that module loses its getter. The slots that are loading are
those of the unfinished loads, and the fault releases one of them.
-/

namespace Pyremu.Sittim

namespace Registry

variable {r : Registry} {id id' : Fin MAX_MODULES} {x : ModSlot}

theorem put_same : r.put id x id = x := Function.update_self ..

theorem put_other (h : id' ≠ id) : r.put id x id' = r id' := Function.update_of_ne h ..

theorem slotSize_ne_zero : MODULE_SLOT_SIZE ≠ 0 := by decide

theorem inWindow_iff {addr va : Word} :
    inWindow addr (va, MODULE_SLOT_SIZE) = true ↔ va.toNat ≤ addr.toNat ∧ addr.toNat < va.toNat + 2 ^ 21 := by
  have hne : (MODULE_SLOT_SIZE != 0) = true := rfl
  rw [inWindow, Bool.and_eq_true, Bool.and_eq_true, decide_eq_true_iff, decide_eq_true_iff, BitVec.le_def,
    BitVec.lt_def, show MODULE_SLOT_SIZE.toNat = 2 ^ 21 from rfl]
  dsimp only
  constructor
  · rintro ⟨⟨_, hle⟩, hlt⟩
    rw [BitVec.toNat_sub_of_le hle] at hlt
    omega
  · rintro ⟨hle, hlt⟩
    rw [BitVec.toNat_sub_of_le hle]
    exact ⟨⟨hne, hle⟩, by omega⟩

/-- Windows are empty or those of images, and no two slots share one. -/
structure Windows (images : List Word) (r : Registry) : Prop where
  image : ∀ {id w}, (r id).window = some w → w.2 = 0 ∨ w.2 = MODULE_SLOT_SIZE ∧ w.1 ∈ images
  unique : ∀ {id id' va}, (r id).window = some (va, MODULE_SLOT_SIZE) →
    (r id').window = some (va, MODULE_SLOT_SIZE) → id = id'

variable {images : List Word}

/-- A slot that keeps its window, or has none. -/
theorem Windows.put (h : Windows images r) (hx : ∀ w, x.window = some w → w.2 = 0 ∨ (r id).window = some w) :
    Windows images (r.put id x) := by
  have hold : ∀ i w, ((r.put id x) i).window = some w → w.2 = 0 ∨ (r i).window = some w := by
    intro i w hw
    by_cases hi : i = id
    · subst hi
      rw [put_same] at hw
      exact hx w hw
    · rw [put_other hi] at hw
      exact .inr hw
  constructor
  · intro i w hw
    rcases hold i w hw with hz | hw
    · exact .inl hz
    · exact h.image hw
  · intro i j va hi hj
    have hi := (hold i _ hi).resolve_left slotSize_ne_zero
    have hj := (hold j _ hj).resolve_left slotSize_ne_zero
    exact h.unique hi hj

/-- A slot that gets the window of a new image. -/
theorem Windows.fresh (h : Windows images r) {va : Word} (hva : va ∉ images)
    (hx : x.window = some (va, MODULE_SLOT_SIZE)) : Windows (va :: images) (r.put id x) := by
  have hnew : ∀ i w, ((r.put id x) i).window = some w → i = id ∧ w = (va, MODULE_SLOT_SIZE) ∨ i ≠ id ∧ (r i).window = some w := by
    intro i w hw
    by_cases hi : i = id
    · subst hi
      rw [put_same, hx] at hw
      exact .inl ⟨rfl, (Option.some.inj hw).symm⟩
    · rw [put_other hi] at hw
      exact .inr ⟨hi, hw⟩
  constructor
  · intro i w hw
    rcases hnew i w hw with ⟨_, rfl⟩ | ⟨_, hw⟩
    · exact .inr ⟨rfl, .head _⟩
    · rcases h.image hw with hz | ⟨hsize, hmem⟩
      · exact .inl hz
      · exact .inr ⟨hsize, .tail _ hmem⟩
  · intro i j va' hi hj
    have hmem : ∀ k, (r k).window = some (va', MODULE_SLOT_SIZE) → va' ∈ images := by
      intro k hk
      exact ((h.image hk).resolve_left slotSize_ne_zero).2
    rcases hnew i _ hi with ⟨hid, heq⟩ | ⟨_, hi'⟩
    · rcases hnew j _ hj with ⟨hjd, _⟩ | ⟨_, hj'⟩
      · exact hid.trans hjd.symm
      · obtain ⟨rfl, _⟩ := Prod.mk.inj heq
        exact absurd (hmem j hj') hva
    · rcases hnew j _ hj with ⟨_, heq⟩ | ⟨_, hj'⟩
      · obtain ⟨rfl, _⟩ := Prod.mk.inj heq
        exact absurd (hmem i hi') hva
      · exact h.unique hi' hj'

/-- What `mark_failed` makes of a slot. -/
def failedSlot : ModSlot → ModSlot
  | .loadedModule _ va winSize => .failed va winSize
  | .failed va winSize => .failed va winSize
  | .loading _ _ => .empty
  | .empty => .empty

theorem markFailed_eq (r : Registry) (id : Fin MAX_MODULES) : r.markFailed id = r.put id (failedSlot (r id)) := by
  rw [markFailed]
  cases r id <;> rfl

theorem failedSlot_isLoading (x : ModSlot) : (failedSlot x).isLoading = false := by
  cases x <;> rfl

theorem failedSlot_ne_loaded (x : ModSlot) (getter va winSize : Word) :
    failedSlot x ≠ .loadedModule getter va winSize := by
  cases x <;> exact ModSlot.noConfusion

theorem Windows.markFailed (h : Windows images r) (id : Fin MAX_MODULES) : Windows images (r.markFailed id) := by
  rw [markFailed_eq]
  apply h.put
  intro w hw
  cases hslot : r id with
  | loadedModule getter va winSize | failed va winSize =>
    rw [hslot] at hw
    exact .inr hw
  | loading va winSize | empty =>
    rw [hslot] at hw
    cases hw

end Registry

namespace Loads

open Registry

/-- The slot of a module whose load is unfinished. -/
def frameSlot (f : LoadFrame) : ModSlot :=
  match f.va with
  | none => .loading 0 0
  | some va => .loading va MODULE_SLOT_SIZE

structure Inv (s : Loads) : Prop where
  spaced : ∀ va ∈ s.images, ∀ va' ∈ s.images, va ≠ va' →
    va.toNat + 2 ^ 21 ≤ va'.toNat ∨ va'.toNat + 2 ^ 21 ≤ va.toNat
  below : ∀ va ∈ s.images, va.toNat + 2 ^ 21 ≤ s.loadVa.toNat
  windows : Windows s.images s.reg
  loaded : ∀ {id getter va winSize}, s.reg id = .loadedModule getter va winSize →
    winSize = MODULE_SLOT_SIZE ∧ va ∉ s.faulted
  frames : ∀ f ∈ s.stack, s.reg f.id = frameSlot f ∧ ∀ va, f.va = some va → va ∉ s.faulted
  nodup : (s.stack.map LoadFrame.id).Nodup
  faulted : ∀ va ∈ s.faulted, va ∈ s.images

variable {s : Loads}

/-- Two images that hold one address are the same. -/
theorem Inv.image_unique (h : s.Inv) {addr va va' : Word} (hva : va ∈ s.images) (hva' : va' ∈ s.images)
    (hin : inWindow addr (va, MODULE_SLOT_SIZE) = true) (hin' : inWindow addr (va', MODULE_SLOT_SIZE) = true) :
    va = va' := by
  by_contra hne
  rw [inWindow_iff] at hin hin'
  have hfar := h.spaced va hva va' hva' hne
  omega

theorem init_inv : init.Inv where
  spaced va hva := by cases hva
  below va hva := by cases hva
  windows := ⟨fun hw => (by cases hw), fun hw => (by cases hw)⟩
  loaded hslot := by cases hslot
  frames f hf := by cases hf
  nodup := List.nodup_nil
  faulted va hva := by cases hva

/-- Slots that no load works on stay as they are when another slot is put. -/
theorem Inv.frames_put (h : s.Inv) {id : Fin MAX_MODULES} {x : ModSlot} {l : List LoadFrame}
    (hsub : ∀ f ∈ l, f ∈ s.stack) (hid : ∀ f ∈ l, f.id ≠ id) :
    ∀ f ∈ l, s.reg.put id x f.id = frameSlot f ∧ ∀ va, f.va = some va → va ∉ s.faulted := by
  intro f hf
  obtain ⟨hslot, hva⟩ := h.frames f (hsub f hf)
  exact ⟨(put_other (hid f hf)).trans hslot, hva⟩

/-- A put of a slot that is not loaded keeps what is known of the loaded ones. -/
theorem Inv.loaded_put (h : s.Inv) {id : Fin MAX_MODULES} {x : ModSlot}
    (hx : ∀ getter va winSize, x ≠ .loadedModule getter va winSize) {id' : Fin MAX_MODULES}
    {getter va winSize : Word} (hslot : s.reg.put id x id' = .loadedModule getter va winSize) :
    winSize = MODULE_SLOT_SIZE ∧ va ∉ s.faulted := by
  by_cases hid : id' = id
  · subst hid
    rw [put_same] at hslot
    exact absurd hslot (hx _ _ _)
  · rw [put_other hid] at hslot
    exact h.loaded hslot

/-- The innermost load and those around it are about different modules. -/
theorem Inv.rest_ne (h : s.Inv) {f : LoadFrame} {rest : List LoadFrame} (hs : s.stack = f :: rest) :
    ∀ g ∈ rest, g.id ≠ f.id := by
  intro g hg heq
  have hnodup := h.nodup
  rw [hs, List.map_cons, List.nodup_cons] at hnodup
  exact hnodup.1 (List.mem_map.mpr ⟨g, hg, heq⟩)

theorem Inv.rest_nodup (h : s.Inv) {f : LoadFrame} {rest : List LoadFrame} (hs : s.stack = f :: rest) :
    (rest.map LoadFrame.id).Nodup := by
  have hnodup := h.nodup
  rw [hs, List.map_cons, List.nodup_cons] at hnodup
  exact hnodup.2

theorem Inv.request (h : s.Inv) (n : Nat) : (s.request n).Inv := by
  rw [Loads.request]
  split
  · rename_i hn
    split
    · exact h
    · rw [beginLoad]
      have hfree : ∀ {x}, (∀ f ∈ s.stack, f.id ≠ ⟨n, hn⟩) → s.reg ⟨n, hn⟩ = x →
          ({ s with reg := s.reg.put ⟨n, hn⟩ (.loading 0 0), stack := ⟨⟨n, hn⟩, none⟩ :: s.stack } : Loads).Inv := by
        intro x hother _
        refine ⟨h.spaced, h.below, h.windows.put ?_, h.loaded_put fun _ _ _ => ModSlot.noConfusion, ?_, ?_, h.faulted⟩
        · rintro w ⟨⟩
          exact .inl rfl
        · intro f hf
          rcases List.mem_cons.mp hf with rfl | hf
          · exact ⟨put_same, fun va hva => by cases hva⟩
          · exact h.frames_put (fun _ => id) hother f hf
        · rw [List.map_cons, List.nodup_cons]
          refine ⟨?_, h.nodup⟩
          rintro hmem
          obtain ⟨f, hf, heq⟩ := List.mem_map.mp hmem
          exact hother f hf heq
      have hother : (s.reg ⟨n, hn⟩).isLoading = false → ∀ f ∈ s.stack, f.id ≠ ⟨n, hn⟩ := by
        intro hidle f hf heq
        rw [← heq, (h.frames f hf).1, frameSlot] at hidle
        cases hva : f.va <;> rw [hva] at hidle <;> cases hidle
      cases hslot : s.reg ⟨n, hn⟩ with
      | empty => exact hfree (hother (by rw [hslot]; rfl)) hslot
      | failed va winSize => exact hfree (hother (by rw [hslot]; rfl)) hslot
      | loading va winSize => exact h
      | loadedModule getter va winSize => exact h
  · exact h

theorem Inv.fail (h : s.Inv) : s.fail.Inv := by
  rw [Loads.fail]
  split
  · exact h
  · rename_i f rest hs
    have hput : ({ s with reg := s.reg.put f.id .empty, stack := rest } : Loads).Inv := by
      refine ⟨h.spaced, h.below, h.windows.put ?_, h.loaded_put fun _ _ _ => ModSlot.noConfusion, ?_,
        h.rest_nodup hs, h.faulted⟩
      · rintro w ⟨⟩
      · exact h.frames_put (fun g hg => by rw [hs]; exact .tail _ hg) (h.rest_ne hs)
    have hloading := (h.frames f (by rw [hs]; exact .head _)).1
    rw [frameSlot] at hloading
    rw [abortLoad]
    cases hva : f.va <;> rw [hva] at hloading <;> rw [hloading] <;> exact hput

/-- The window of a new image lies above all others. -/
theorem Inv.openBuf (h : s.Inv) : s.openBuf.Inv := by
  rw [Loads.openBuf]
  split
  · rename_i id rest hs
    split
    · exact h.fail
    · rename_i hroom
      rw [not_or, Nat.not_le] at hroom
      have hslot : s.reg id = .loading 0 0 := (h.frames ⟨id, none⟩ (by rw [hs]; exact .head _)).1
      have hnew : ∀ va ∈ s.images, va ≠ s.loadVa := by
        rintro va hva rfl
        have := h.below _ hva
        omega
      have hend : (s.loadVa + MODULE_SLOT_SIZE).toNat = s.loadVa.toNat + 2 ^ 21 := by
        rw [BitVec.toNat_add]
        exact Nat.mod_eq_of_lt hroom.1
      dsimp only
      rw [noteImageWindow, hslot]
      refine ⟨?_, ?_, h.windows.fresh (fun hmem => hnew _ hmem rfl) rfl, ?_, ?_, ?_, ?_⟩
      · intro va hva va' hva' hne
        rcases List.mem_cons.mp hva with rfl | hva
        · rcases List.mem_cons.mp hva' with rfl | hva'
          · exact absurd rfl hne
          · exact .inr (h.below va' hva')
        · rcases List.mem_cons.mp hva' with rfl | hva'
          · exact .inl (h.below va hva)
          · exact h.spaced va hva va' hva' hne
      · intro va hva
        show va.toNat + 2 ^ 21 ≤ (s.loadVa + MODULE_SLOT_SIZE).toNat
        rw [hend]
        rcases List.mem_cons.mp hva with rfl | hva
        · exact le_rfl
        · have := h.below va hva
          omega
      · exact h.loaded_put fun _ _ _ => ModSlot.noConfusion
      · intro f hf
        rcases List.mem_cons.mp hf with rfl | hf
        · refine ⟨put_same, ?_⟩
          rintro va ⟨⟩ hmem
          exact hnew _ (h.faulted _ hmem) rfl
        · exact h.frames_put (fun g hg => by rw [hs]; exact .tail _ hg) (h.rest_ne hs) f hf
      · have hnodup := h.nodup
        rwa [hs] at hnodup
      · exact fun va hva => .tail _ (h.faulted va hva)
  · exact h

theorem Inv.finish (h : s.Inv) (getter : Word) : (s.finish getter).Inv := by
  rw [Loads.finish]
  split
  · rename_i id va rest hs
    obtain ⟨hslot, hva⟩ := h.frames ⟨id, some va⟩ (by rw [hs]; exact .head _)
    have hslot : s.reg id = .loading va MODULE_SLOT_SIZE := hslot
    rw [commitLoad, hslot]
    refine ⟨h.spaced, h.below, h.windows.put ?_, ?_, ?_, h.rest_nodup hs, h.faulted⟩
    · intro w hw
      rw [hslot]
      exact .inr hw
    · intro id' getter' va' winSize hloaded
      have hloaded : s.reg.put id (.loadedModule getter va MODULE_SLOT_SIZE) id' = _ := hloaded
      by_cases hid : id' = id
      · subst hid
        rw [put_same] at hloaded
        cases hloaded
        exact ⟨rfl, hva va rfl⟩
      · rw [put_other hid] at hloaded
        exact h.loaded hloaded
    · exact h.frames_put (fun g hg => by rw [hs]; exact .tail _ hg) (h.rest_ne hs)
  · exact h

/-! ## The fault -/

/-- An address in the window of a slot belongs to an image, and the owner of the address is the slot
with that image. -/
theorem Inv.owner (h : s.Inv) {addr : Word} {id : Fin MAX_MODULES} (ho : s.reg.ownerOfAddress addr = some id) :
    ∃ va, (s.reg id).window = some (va, MODULE_SLOT_SIZE) ∧ va ∈ s.images ∧
      inWindow addr (va, MODULE_SLOT_SIZE) = true := by
  have hin := List.find?_some ho
  obtain ⟨⟨va, winSize⟩, hw, hin⟩ := (Option.any_eq_true _ _).mp hin
  rcases h.windows.image hw with hz | ⟨hsize, hmem⟩
  · dsimp only at hz
    subst hz
    cases hin
  · dsimp only at hsize
    subst hsize
    exact ⟨va, hw, hmem, hin⟩

theorem Inv.owner_of_image (h : s.Inv) {addr va getter : Word} {id : Fin MAX_MODULES}
    (hslot : s.reg id = .loadedModule getter va MODULE_SLOT_SIZE)
    (hin : inWindow addr (va, MODULE_SLOT_SIZE) = true) : s.reg.ownerOfAddress addr = some id := by
  have hw : (s.reg id).window = some (va, MODULE_SLOT_SIZE) := by
    rw [hslot]
    rfl
  cases ho : s.reg.ownerOfAddress addr with
  | none =>
    have hno := List.find?_eq_none.mp ho id (List.mem_finRange id)
    rw [hw] at hno
    exact absurd hin hno
  | some id' =>
    obtain ⟨va', hw', hmem', hin'⟩ := h.owner ho
    have hmem := ((h.windows.image hw).resolve_left slotSize_ne_zero).2
    obtain rfl := h.image_unique hmem hmem' hin hin'
    rw [h.windows.unique hw hw']

/-- The module that a fault is attributed to is the one whose image faulted, if that is registered. -/
theorem Inv.fault_owner (h : s.Inv) {sepc stval va getter : Word} {id : Fin MAX_MODULES}
    (hslot : s.reg id = .loadedModule getter va MODULE_SLOT_SIZE) (hva : s.faultedImage sepc stval = some va) :
    s.reg.moduleOf sepc stval = some id := by
  rw [faultedImage] at hva
  rw [moduleOf]
  cases hsepc : s.imageOf sepc with
  | some va' =>
    rw [hsepc] at hva
    obtain rfl : va' = va := Option.some.inj hva
    have hin := List.find?_some hsepc
    rw [h.owner_of_image hslot hin]
    rfl
  | none =>
    rw [hsepc] at hva
    have hin := List.find?_some hva
    cases ho : s.reg.ownerOfAddress sepc with
    | none => exact h.owner_of_image hslot hin
    | some id' =>
      obtain ⟨va', _, hmem', hin'⟩ := h.owner ho
      exact absurd hin' (List.find?_eq_none.mp hsepc va' hmem')

theorem faultedImage_mem {sepc stval va : Word} (h : s.faultedImage sepc stval = some va) : va ∈ s.images := by
  rw [faultedImage, Option.or_eq_some_iff] at h
  rcases h with h | ⟨_, h⟩
  · exact List.mem_of_find?_eq_some h
  · exact List.mem_of_find?_eq_some h

theorem Inv.fault (h : s.Inv) (sepc stval : Word) (fromUser : Bool) : (s.fault sepc stval fromUser).Inv := by
  have hhalt : ({ s with halted := true } : Loads).Inv :=
    ⟨h.spaced, h.below, h.windows, h.loaded, h.frames, h.nodup, h.faulted⟩
  rw [Loads.fault]
  split
  · rename_i id hid
    split
    · refine ⟨h.spaced, h.below, h.windows.markFailed id, ?_, fun f hf => (by cases hf), List.nodup_nil, ?_⟩
      · intro id' getter va winSize hslot
        dsimp only at hslot
        rw [markFailed_eq] at hslot
        by_cases heq : id' = id
        · subst heq
          rw [put_same] at hslot
          exact absurd hslot (failedSlot_ne_loaded _ _ _ _)
        · rw [put_other heq] at hslot
          obtain ⟨rfl, hva⟩ := h.loaded hslot
          refine ⟨rfl, ?_⟩
          rw [List.mem_append, Option.mem_toList, not_or]
          refine ⟨fun himage => heq ?_, hva⟩
          have hown := h.fault_owner hslot himage
          rw [hid] at hown
          exact (Option.some.inj hown).symm
      · intro va hva
        rw [List.mem_append, Option.mem_toList] at hva
        rcases hva with hva | hva
        · exact faultedImage_mem hva
        · exact h.faulted va hva
    · exact hhalt
  · exact hhalt

theorem Inv.step (h : s.Inv) (a : LoadStep) : (s.step a).Inv := by
  unfold Loads.step
  split
  · exact h
  · cases a with
    | request n => exact h.request n
    | openBuf => exact h.openBuf
    | finish getter => exact h.finish getter
    | fail => exact h.fail
    | fault sepc stval fromUser => exact h.fault sepc stval fromUser

theorem Inv.noFaultedGetter (h : s.Inv) : s.NoFaultedGetter := by
  intro id getter hlookup
  rw [lookup] at hlookup
  cases hslot : s.reg id with
  | loadedModule g va winSize =>
    rw [hslot] at hlookup
    cases hlookup
    exact ⟨va, winSize, rfl, (h.loaded hslot).2⟩
  | empty | failed va winSize | loading va winSize =>
    rw [hslot] at hlookup
    cases hlookup

/-! ## The slots that are loading -/

/-- Every slot that is loading has its load on the stack. -/
def OnStack (s : Loads) : Prop := ∀ id, (s.reg id).isLoading = true → ∃ f ∈ s.stack, f.id = id

theorem OnStack.put {id : Fin MAX_MODULES} {x : ModSlot} {l : List LoadFrame} (h : s.OnStack)
    (hx : x.isLoading = true → ∃ f ∈ l, f.id = id) (hl : ∀ f ∈ s.stack, f.id = id ∨ f ∈ l) {id' : Fin MAX_MODULES}
    (hid : (s.reg.put id x id').isLoading = true) : ∃ f ∈ l, f.id = id' := by
  by_cases heq : id' = id
  · subst heq
    rw [put_same] at hid
    exact hx hid
  · rw [put_other heq] at hid
    obtain ⟨f, hf, rfl⟩ := h id' hid
    exact ⟨f, (hl f hf).resolve_left heq, rfl⟩

theorem OnStack.fail (h : s.OnStack) (hs : s.Inv) : s.fail.OnStack := by
  rw [Loads.fail]
  split
  · exact h
  · rename_i f rest hstack
    have hloading := (hs.frames f (by rw [hstack]; exact .head _)).1
    have habort : s.reg.abortLoad f.id = s.reg.put f.id .empty := by
      rw [frameSlot] at hloading
      rw [abortLoad]
      cases hva : f.va <;> rw [hva] at hloading <;> rw [hloading]
    intro id hid
    dsimp only at hid
    rw [habort] at hid
    refine h.put (fun hx => by cases hx) (fun g hg => ?_) hid
    rw [hstack] at hg
    rcases List.mem_cons.mp hg with rfl | hg
    · exact .inl rfl
    · exact .inr hg

theorem OnStack.openBuf (h : s.OnStack) (hs : s.Inv) : s.openBuf.OnStack := by
  rw [Loads.openBuf]
  split
  · rename_i id rest hstack
    split
    · exact h.fail hs
    · have hslot : s.reg id = .loading 0 0 := (hs.frames ⟨id, none⟩ (by rw [hstack]; exact .head _)).1
      dsimp only
      rw [noteImageWindow, hslot]
      intro id' hid
      refine h.put (fun _ => ⟨_, .head _, rfl⟩) (fun g hg => ?_) hid
      rw [hstack] at hg
      rcases List.mem_cons.mp hg with rfl | hg
      · exact .inl rfl
      · exact .inr (.tail _ hg)
  · exact h

theorem OnStack.finish (h : s.OnStack) (hs : s.Inv) (getter : Word) : (s.finish getter).OnStack := by
  rw [Loads.finish]
  split
  · rename_i id va rest hstack
    have hslot : s.reg id = .loading va MODULE_SLOT_SIZE :=
      (hs.frames ⟨id, some va⟩ (by rw [hstack]; exact .head _)).1
    rw [commitLoad, hslot]
    intro id' hid
    refine h.put (fun hx => by cases hx) (fun g hg => ?_) hid
    rw [hstack] at hg
    rcases List.mem_cons.mp hg with rfl | hg
    · exact .inl rfl
    · exact .inr hg
  · exact h

theorem OnStack.request (h : s.OnStack) (n : Nat) : (s.request n).OnStack := by
  rw [Loads.request]
  split
  · rename_i hn
    split
    · exact h
    · have hput : ({ s with reg := s.reg.put ⟨n, hn⟩ (.loading 0 0), stack := ⟨⟨n, hn⟩, none⟩ :: s.stack } : Loads).OnStack :=
        fun id hid => h.put (fun _ => ⟨_, .head _, rfl⟩) (fun g hg => .inr (.tail _ hg)) hid
      rw [beginLoad]
      cases s.reg ⟨n, hn⟩ with
      | empty | failed va winSize => exact hput
      | loading va winSize => exact h
      | loadedModule getter va winSize => exact h
  · exact h

theorem step_of_running (h : s.halted = false) (a : LoadStep) : s.step a =
    match a with
    | .request id => s.request id
    | .openBuf => s.openBuf
    | .finish getter => s.finish getter
    | .fail => s.fail
    | .fault sepc stval fromUser => s.fault sepc stval fromUser := by
  refine (if_neg (by rw [h]; exact Bool.false_ne_true)).trans ?_
  cases a <;> rfl

theorem OnStack.step (h : s.OnStack) (hs : s.Inv) (a : LoadStep) (hrec : s.Recovers a) : (s.step a).OnStack := by
  by_cases hh : s.halted = true
  · unfold Loads.step
    rw [if_pos hh]
    exact h
  · rw [Bool.not_eq_true] at hh
    cases a with
    | fault sepc stval fromUser =>
      by_cases hd : ∃ id, s.Delivered (.fault sepc stval fromUser) id
      · obtain ⟨id, hd⟩ := hd
        intro id' hid
        rw [hrec id hd id'] at hid
        cases hid
      · rw [step_of_running hh]
        show (s.fault sepc stval fromUser).OnStack
        rw [Loads.fault]
        split
        · rename_i id hid
          split
          · rename_i hu
            exact absurd ⟨id, hh, sepc, stval, by rw [hu], hid⟩ hd
          · exact h
        · exact h
    | request n =>
      rw [step_of_running hh]
      exact h.request n
    | openBuf =>
      rw [step_of_running hh]
      exact h.openBuf hs
    | finish getter =>
      rw [step_of_running hh]
      exact h.finish hs getter
    | fail =>
      rw [step_of_running hh]
      exact h.fail hs

/-- A fault leaves no slot loading exactly when no load but the faulting module's own is unfinished. -/
theorem recovers_iff (hs : s.Inv) (h : s.OnStack) (a : LoadStep) : s.Recovers a ↔ s.OnlyOwnLoad a := by
  have hafter : ∀ id, s.Delivered a id → ∀ id', (s.step a).reg id' = s.reg.markFailed id id' := by
    rintro id ⟨hh, sepc, stval, rfl, hid⟩ id'
    rw [step_of_running hh]
    show (s.fault sepc stval true).reg id' = _
    rw [Loads.fault, hid]
    rfl
  constructor
  · intro hrec id hd f hf
    by_contra hne
    have hidle := hrec id hd f.id
    rw [hafter id hd, markFailed_eq, put_other hne, (hs.frames f hf).1, frameSlot] at hidle
    cases hva : f.va <;> rw [hva] at hidle <;> cases hidle
  · intro hown id hd id'
    rw [hafter id hd, markFailed_eq]
    by_cases heq : id' = id
    · subst heq
      rw [put_same]
      exact failedSlot_isLoading _
    · rw [put_other heq, Bool.eq_false_iff]
      intro hloading
      obtain ⟨f, hf, rfl⟩ := h id' hloading
      exact heq (hown id hd f hf)

end Loads

open Loads in
/-- For every run of loads and faults from an empty registry: each fault that is handed back leaves no
slot loading, and no getter of a faulted image is given out, exactly when at each such fault the only
unfinished load, if any, is that of the faulting module. -/
theorem module_faults_recover_iff (l : List LoadStep) :
    (Run.Along step Recovers init l ∧ Run.Always step NoFaultedGetter init l) ↔
      Run.Along step OnlyOwnLoad init l := by
  have hget : Run.Always step NoFaultedGetter init l :=
    Run.always_of_invariant (G := fun _ _ => True) (fun s a hs _ => Inv.step hs a) (fun _ hs => hs.noFaultedGetter)
      init_inv Run.along_true
  have hiff : Run.Along step Recovers init l ↔ Run.Along step OnlyOwnLoad init l :=
    Run.along_iff_of_step (I := fun s => s.Inv ∧ s.OnStack) (fun s a hs => recovers_iff hs.1 hs.2 a)
      (fun s a hs hrec => ⟨hs.1.step a, hs.2.step hs.1 a hrec⟩) ⟨init_inv, fun id hid => by cases hid⟩
  exact ⟨fun h => hiff.mp h.1, fun h => ⟨hiff.mpr h, hget⟩⟩

/-- Module 3 is loading, its entry requests module 4, and the entry of module 4 faults. -/
def nestedFault : List LoadStep :=
  [.request 3, .openBuf, .request 4, .openBuf, .fault (ENCLAVE_MODULE_LOAD_VA_INIT + 0x200040) 0 true]

/-- Module 3 stays in loading, and every later request for it is refused. -/
theorem nested_fault_leaves_loading :
    ¬ (Run.Along Loads.step Loads.Recovers Loads.init nestedFault ∧
        Run.Always Loads.step Loads.NoFaultedGetter Loads.init nestedFault) := by
  rintro ⟨h, _⟩
  have hlast := Run.Along.last (l := nestedFault.dropLast) h ⟨4, by decide⟩
    ⟨rfl, _, _, rfl, by decide +kernel⟩ ⟨3, by decide⟩
  revert hlast
  decide +kernel

end Pyremu.Sittim
