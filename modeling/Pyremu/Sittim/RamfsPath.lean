import Pyremu.Sittim.RamfsTree

/-!
# Paths mean what they spell

A path is walked name by name. The resolution splits off the last name and
treats the rest in a loop of its own; both come to the same node.
-/

namespace Pyremu.Sittim

open Links

/-- The names between the slashes that are not empty. -/
def names (path : List Byte) : List (List Byte) := (path.splitOn SLASH).filter fun name => decide (name ≠ [])

theorem names_append (a b : List Byte) : names (a ++ SLASH :: b) = names a ++ names b := by
  rw [names, List.splitOn_append_cons_self, List.filter_append]
  rfl

theorem names_cons (b : List Byte) : names (SLASH :: b) = names b := names_append [] b

theorem names_single {name : List Byte} (hne : name ≠ []) (hslash : SLASH ∉ name) : names name = [name] := by
  rw [names, List.splitOn_eq_singleton hslash, List.filter_singleton, decide_eq_true hne]
  rfl

theorem names_slashes {a : List Byte} (h : ∀ b ∈ a, b = SLASH) : names a = [] := by
  induction a with
  | nil => rfl
  | cons b a ih =>
    rw [h b (List.mem_cons_self ..), names_cons]
    exact ih fun c hc => h c (List.mem_cons_of_mem _ hc)

theorem names_slashes_append {a : List Byte} (h : ∀ b ∈ a, b = SLASH) (c : List Byte) : names (a ++ c) = names c := by
  induction a with
  | nil => rfl
  | cons b a ih =>
    rw [h b (List.mem_cons_self ..), List.cons_append, names_cons]
    exact ih fun c hc => h c (List.mem_cons_of_mem _ hc)

theorem names_append_slashes {a : List Byte} (h : ∀ b ∈ a, b = SLASH) (c : List Byte) : names (c ++ a) = names c := by
  cases a with
  | nil => rw [List.append_nil]
  | cons b a =>
    rw [h b (List.mem_cons_self ..), names_append, names_slashes fun c hc => h c (List.mem_cons_of_mem _ hc),
      List.append_nil]

theorem mem_takeWhile_slash {path : List Byte} {b : Byte} (h : b ∈ path.takeWhile (· == SLASH)) : b = SLASH :=
  eq_of_beq (List.mem_takeWhile_imp h :)

theorem not_mem_takeWhile {path : List Byte} : SLASH ∉ path.takeWhile (· != SLASH) := by
  intro h
  have hne := List.mem_takeWhile_imp h
  rw [bne_self_eq_false] at hne
  cases hne

theorem nextName_ne {path name rest : List Byte} (h : nextName path = some (name, rest)) : name ≠ [] := by
  rw [nextName] at h
  cases hdrop : path.dropWhile (· == SLASH) with
  | nil =>
    rw [hdrop] at h
    cases h
  | cons b tail =>
    have hne : path.dropWhile (fun b => b == SLASH) ≠ [] := by
      rw [hdrop]
      exact List.cons_ne_nil _ _
    have hhead := List.head_dropWhile_not (fun b => b == SLASH) hne
    simp only [hdrop, List.head_cons] at hhead
    rw [hdrop] at h
    obtain ⟨rfl, _⟩ := Prod.mk.inj (Option.some.inj h)
    rw [List.takeWhile_cons, if_pos (by rw [bne, hhead]; rfl)]
    exact List.cons_ne_nil _ _

/-- The names of a path are the next one and those of the rest. -/
theorem names_of_nextName {path : List Byte} : names path =
    match nextName path with
    | none => []
    | some (name, rest) => name :: names rest := by
  have hsplit : path.takeWhile (· == SLASH) ++ path.dropWhile (· == SLASH) = path := List.takeWhile_append_dropWhile
  have hskip : names path = names (path.dropWhile (· == SLASH)) := by
    rw [← names_slashes_append (fun b hb => mem_takeWhile_slash hb) (path.dropWhile (· == SLASH)), hsplit]
  rw [hskip, nextName]
  cases hdrop : path.dropWhile (· == SLASH) with
  | nil => rfl
  | cons b tail =>
    dsimp only
    have hb : (b != SLASH) = true := by
      have hne : path.dropWhile (fun b => b == SLASH) ≠ [] := by
        rw [hdrop]
        exact List.cons_ne_nil _ _
      have hhead := List.head_dropWhile_not (fun b => b == SLASH) hne
      simp only [hdrop, List.head_cons] at hhead
      rw [bne, hhead]
      rfl
    have hname : (b :: tail).takeWhile (· != SLASH) ≠ [] := by
      rw [List.takeWhile_cons, if_pos hb]
      exact List.cons_ne_nil _ _
    have hwhole : (b :: tail).takeWhile (· != SLASH) ++ (b :: tail).dropWhile (· != SLASH) = b :: tail :=
      List.takeWhile_append_dropWhile
    cases hrest : (b :: tail).dropWhile (· != SLASH) with
    | nil =>
      rw [hrest, List.append_nil] at hwhole
      have hsingle := names_single hname not_mem_takeWhile
      rw [hwhole] at hsingle
      rw [hsingle, hwhole]
      rfl
    | cons c rest =>
      have hc : c = SLASH := by
        have hne : (b :: tail).dropWhile (fun b => b != SLASH) ≠ [] := by
          rw [hrest]
          exact List.cons_ne_nil _ _
        have hhead := List.head_dropWhile_not (fun b => b != SLASH) hne
        simp only [hrest, List.head_cons] at hhead
        rwa [bne, Bool.not_eq_false', beq_iff_eq] at hhead
      subst hc
      rw [hrest] at hwhole
      have happend := names_append ((b :: tail).takeWhile (· != SLASH)) rest
      rw [hwhole, names_single hname not_mem_takeWhile] at happend
      rw [happend, names_cons]
      rfl

namespace VfsState

variable (s : VfsState)

def IsDir (n : NodeId) : Prop := (s.nodes n).kind = .dir

/-- A child by its name. -/
def ChildNamed (d : NodeId) (name : List Byte) (c : NodeId) : Prop :=
  ∃ l, s.Children d l ∧ c ∈ l ∧ (s.nodes c).name = name

/-- The walk along the names of a path. Each name is looked up in a directory. -/
inductive Walks : NodeId → List (List Byte) → NodeId → Prop
  | done {d : NodeId} : Walks d [] d
  | empty {d n : NodeId} {rest : List (List Byte)} (h : Walks d rest n) : Walks d ([] :: rest) n
  | dot {d n : NodeId} {rest : List (List Byte)} (hd : s.IsDir d) (h : Walks d rest n) : Walks d ([DOT] :: rest) n
  | up {d n : NodeId} {rest : List (List Byte)} (hd : s.IsDir d) (h : Walks ((s.nodes d).parent.getD d) rest n) :
      Walks d ([DOT, DOT] :: rest) n
  | down {d c n : NodeId} {name : List Byte} {rest : List (List Byte)} (hd : s.IsDir d) (hne : name ≠ [])
      (hdot : name ≠ [DOT]) (hup : name ≠ [DOT, DOT]) (hc : s.ChildNamed d name c) (h : Walks c rest n) :
      Walks d (name :: rest) n

/-- The path ends in a slash, in `.` or in `..`. -/
def NamesDir (path : List Byte) : Prop :=
  (path.splitOn SLASH).getLast? = some [] ∨ (path.splitOn SLASH).getLast? = some [DOT] ∨
    (path.splitOn SLASH).getLast? = some [DOT, DOT]

/-- The resolution of a path finds the node that the walk along its names ends at. -/
def PathsSpell (s : VfsState) (path : List Byte) : Prop :=
  ∀ n, s.resolvePath path = .ok n ↔ s.Walks 0 (path.splitOn SLASH) n ∧ (NamesDir path → s.IsDir n)

variable {s} {s' : VfsState} {d n : NodeId} {l : List NodeId} {name : List Byte}

/-- Empty names do not matter. -/
theorem walks_filter {rest : List (List Byte)} :
    s.Walks d (rest.filter fun name => decide (name ≠ [])) n ↔ s.Walks d rest n := by
  constructor
  · intro h
    induction rest generalizing d with
    | nil => exact h
    | cons name rest ih =>
      by_cases hne : name = []
      · subst hne
        exact .empty (ih h)
      · rw [List.filter_cons, if_pos (decide_eq_true hne)] at h
        cases h with
        | empty h => exact absurd rfl hne
        | dot hd h => exact .dot hd (ih h)
        | up hd h => exact .up hd (ih h)
        | down hd hne hdot hup hc h => exact .down hd hne hdot hup hc (ih h)
  · intro h
    induction h with
    | done => exact .done
    | empty _ ih => exact ih
    | dot hd _ ih => exact .dot hd ih
    | up hd _ ih => exact .up hd ih
    | down hd hne hdot hup hc _ ih =>
      rw [List.filter_cons, if_pos (decide_eq_true hne)]
      exact .down hd hne hdot hup hc ih

theorem walks_append {a b : List (List Byte)} : s.Walks d (a ++ b) n ↔ ∃ m, s.Walks d a m ∧ s.Walks m b n := by
  constructor
  · intro h
    induction a generalizing d with
    | nil => exact ⟨d, .done, h⟩
    | cons name a ih =>
      cases h with
      | empty h =>
        obtain ⟨m, hm, hn⟩ := ih h
        exact ⟨m, .empty hm, hn⟩
      | dot hd h =>
        obtain ⟨m, hm, hn⟩ := ih h
        exact ⟨m, .dot hd hm, hn⟩
      | up hd h =>
        obtain ⟨m, hm, hn⟩ := ih h
        exact ⟨m, .up hd hm, hn⟩
      | down hd hne hdot hup hc h =>
        obtain ⟨m, hm, hn⟩ := ih h
        exact ⟨m, .down hd hne hdot hup hc hm, hn⟩
  · rintro ⟨m, hm, hn⟩
    induction hm with
    | done => exact hn
    | empty _ ih => exact .empty (ih hn)
    | dot hd _ ih => exact .dot hd (ih hn)
    | up hd _ ih => exact .up hd (ih hn)
    | down hd hne hdot hup hc _ ih => exact .down hd hne hdot hup hc (ih hn)

/-! ## The loop over the directories -/

theorem Tree.childNamed_iff (h : s.Tree) (hd : d.val < s.nextNode) {c : NodeId} :
    s.ChildNamed d name c ↔ s.findChild d name = some c := by
  obtain ⟨l, hl⟩ := h.kids d hd
  rw [hl.findChild_eq_some_iff]
  constructor
  · rintro ⟨l', hl', hc, hname⟩
    rw [hl'.unique hl.chain] at hc
    exact ⟨hc, hname⟩
  · rintro ⟨hc, hname⟩
    exact ⟨l, hl.chain, hc, hname⟩

theorem Tree.findChild_lt (h : s.Tree) (hd : d.val < s.nextNode) {c : NodeId} (hc : s.findChild d name = some c) :
    c.val < s.nextNode ∧ (s.nodes c).name = name ∧ name.length < NAME_MAX := by
  obtain ⟨l, hl⟩ := h.kids d hd
  obtain ⟨hmem, hname⟩ := hl.findChild_eq_some_iff.mp hc
  obtain ⟨hlt, _, hlen⟩ := hl.link c hmem
  rw [hname] at hlen
  exact ⟨hlt, hname, hlen⟩

theorem Tree.parent_lt (h : s.Tree) (hd : d.val < s.nextNode) : ((s.nodes d).parent.getD d).val < s.nextNode := by
  cases hparent : (s.nodes d).parent with
  | none => exact hd
  | some e => exact Nat.lt_trans (Fin.lt_def.mp (h.up hd hparent)) hd

theorem Tree.walks_lt (h : s.Tree) {rest : List (List Byte)} (hw : s.Walks d rest n) (hd : d.val < s.nextNode) :
    n.val < s.nextNode := by
  induction hw with
  | done => exact hd
  | empty _ ih => exact ih hd
  | dot _ _ ih => exact ih hd
  | up _ _ ih => exact ih (h.parent_lt hd)
  | down _ _ _ _ hc _ ih => exact ih (h.findChild_lt hd ((h.childNamed_iff hd).mp hc)).1

/-- What a resolution keeps: the tree, and nodes that were given out. -/
structure Resolves (s s' : VfsState) (r : Except VfsStatus NodeId) : Prop where
  tree : s'.Tree
  nextNode : s.nextNode ≤ s'.nextNode
  node : ∀ n, r = .ok n → n.val < s'.nextNode

theorem Tree.resolves_error (h : s.Tree) (e : VfsStatus) : Resolves s s (.error e) :=
  ⟨h, le_rfl, fun _ hn => by cases hn⟩

theorem Tree.createChild (h : s.Tree) (hd : d.val < s.nextNode) (hname : name.length < NAME_MAX)
    (hfree : s.findChild d name = none) (kind : VfsKind) (mode : BitVec 32) :
    (s.createChild d name kind mode).1.Tree ∧ s.nextNode ≤ (s.createChild d name kind mode).1.nextNode ∧
      ∀ new, (s.createChild d name kind mode).2 = some new → new.val < (s.createChild d name kind mode).1.nextNode := by
  rcases createChild_cases hd name kind mode with heq | ⟨s', new, heq, hc⟩
  · rw [heq]
    exact ⟨h, le_rfl, fun _ hn => by cases hn⟩
  · rw [heq]
    refine ⟨h.create hc hd hname hfree, ?_, ?_⟩
    · rw [hc.nextNode]
      exact Nat.le_succ _
    · intro new' hnew
      obtain rfl := Option.some.inj hnew
      rw [hc.nextNode, hc.index]
      exact Nat.lt_succ_self _

theorem Tree.resolveLoop (h : s.Tree) (isCreate : Bool) (cur : NodeId) (hcur : cur.val < s.nextNode)
    (path : List Byte) : Resolves s (resolveLoop isCreate s cur path).1 (resolveLoop isCreate s cur path).2 := by
  fun_induction VfsState.resolveLoop isCreate s cur path with
  | case1 =>
    refine ⟨h, le_rfl, fun n hn => ?_⟩
    obtain rfl := Except.ok.inj hn
    exact hcur
  | case2 | case5 | case9 => exact h.resolves_error _
  | case3 =>
    rename_i ih
    exact ih h hcur
  | case4 =>
    rename_i ih
    exact ih h (h.parent_lt hcur)
  | case6 =>
    rename_i hfound ih
    exact ih h (h.findChild_lt hcur hfound).1
  | case7 s cur path name rest =>
    rename_i hlen hfree _ s' hcreate
    have hc := h.createChild hcur (Nat.lt_of_not_le hlen) hfree .dir 0o755
    rw [hcreate] at hc
    exact ⟨hc.1, hc.2.1, fun _ hn => by cases hn⟩
  | case8 s cur path name rest =>
    rename_i hlen hfree _ s' created hcreate ih
    have hc := h.createChild hcur (Nat.lt_of_not_le hlen) hfree .dir 0o755
    rw [hcreate] at hc
    have hrest := ih hc.1 (hc.2.2 created rfl)
    exact ⟨hrest.tree, hc.2.1.trans hrest.nextNode, hrest.node⟩

/-- Without creating, the loop walks. -/
theorem Tree.resolveLoop_iff (h : s.Tree) {cur : NodeId} (hcur : cur.val < s.nextNode) (path : List Byte) :
    (VfsState.resolveLoop false s cur path).2 = .ok n ↔ s.Walks cur (names path) n := by
  fun_induction VfsState.resolveLoop false s cur path with
  | case1 s cur path hnext =>
    rw [names_of_nextName, hnext]
    constructor
    · intro heq
      obtain rfl := Except.ok.inj heq
      exact .done
    · intro hw
      cases hw
      rfl
  | case2 s cur path name rest hnext _ hkind =>
    rw [names_of_nextName, hnext]
    refine iff_of_false (fun heq => by cases heq) fun hw => ?_
    cases hw with
    | empty => exact nextName_ne hnext rfl
    | dot hd => exact hkind hd
    | up hd => exact hkind hd
    | down hd => exact hkind hd
  | case3 s cur path rest hkind hnext _ ih =>
    rw [names_of_nextName, hnext, ih h hcur]
    constructor
    · exact fun hw => .dot (not_not.mp hkind) hw
    · intro hw
      cases hw with
      | dot _ hw => exact hw
      | down _ _ hdot => exact absurd rfl hdot
  | case4 s cur path rest hkind hnext _ _ ih =>
    rw [names_of_nextName, hnext, ih h (h.parent_lt hcur)]
    constructor
    · exact fun hw => .up (not_not.mp hkind) hw
    · intro hw
      cases hw with
      | up _ hw => exact hw
      | down _ _ _ hup => exact absurd rfl hup
  | case5 s cur path name rest hnext _ hkind hdot hup hlen =>
    rw [names_of_nextName, hnext]
    refine iff_of_false (fun heq => by cases heq) fun hw => ?_
    cases hw with
    | empty => exact nextName_ne hnext rfl
    | dot => exact hdot rfl
    | up => exact hup rfl
    | down _ _ _ _ hc =>
      have hlt := (h.findChild_lt hcur ((h.childNamed_iff hcur).mp hc)).2.2
      exact Nat.lt_irrefl _ (hlt.trans_le hlen)
  | case6 s cur path name rest hnext _ hkind hdot hup hlen found hfound ih =>
    rw [names_of_nextName, hnext, ih h (h.findChild_lt hcur hfound).1]
    constructor
    · exact fun hw => .down (not_not.mp hkind) (nextName_ne hnext) hdot hup ((h.childNamed_iff hcur).mpr hfound) hw
    · intro hw
      cases hw with
      | empty => exact absurd rfl (nextName_ne hnext)
      | dot => exact absurd rfl hdot
      | up => exact absurd rfl hup
      | down _ _ _ _ hc hw =>
        rw [h.childNamed_iff hcur, hfound] at hc
        obtain rfl := Option.some.inj hc
        exact hw
  | case7 => contradiction
  | case8 => contradiction
  | case9 s cur path name rest hnext _ hkind hdot hup hlen hfound =>
    rw [names_of_nextName, hnext]
    refine iff_of_false (fun heq => by cases heq) fun hw => ?_
    cases hw with
    | empty => exact nextName_ne hnext rfl
    | dot => exact hdot rfl
    | up => exact hup rfl
    | down _ _ _ _ hc =>
      rw [h.childNamed_iff hcur, hfound] at hc
      cases hc

end VfsState

/-! ## The last name -/

theorem getLast_splitOn (a b : List Byte) : ((a ++ SLASH :: b).splitOn SLASH).getLast? = (b.splitOn SLASH).getLast? := by
  rw [List.splitOn_append_cons_self, List.getLast?_append_of_ne_nil _ (List.splitOn_ne_nil SLASH b)]

theorem getLast_splitOn_slashes {a : List Byte} (hne : a ≠ []) (h : ∀ b ∈ a, b = SLASH) (c : List Byte) :
    ((c ++ a).splitOn SLASH).getLast? = some [] := by
  rcases List.eq_nil_or_concat' a with rfl | ⟨a', b, rfl⟩
  · exact absurd rfl hne
  · rw [h b (List.mem_append_right _ (List.mem_singleton_self b)), ← List.append_assoc, getLast_splitOn]
    rfl

/-- What the parts of a path are that `split_path` works with. -/
structure Parts (path head name before : List Byte) : Prop where
  slashes : ∃ tail, path = head ++ tail ∧ ∀ b ∈ tail, b = SLASH
  head : head = before ++ name
  name_ne : name ≠ []
  name_slash : SLASH ∉ name
  before : before = [] ∨ ∃ b, before = b ++ [SLASH]

theorem rtakeWhile_slash {path : List Byte} : ∀ b ∈ path.rtakeWhile (· == SLASH), b = SLASH :=
  fun _ hb => eq_of_beq (List.mem_rtakeWhile_imp hb :)

theorem parts_of_path {path : List Byte} (hne : path.rdropWhile (· == SLASH) ≠ []) :
    Parts path (path.rdropWhile (· == SLASH)) ((path.rdropWhile (· == SLASH)).rtakeWhile (· != SLASH))
      ((path.rdropWhile (· == SLASH)).rdropWhile (· != SLASH)) := by
  refine ⟨⟨_, List.rdropWhile_append_rtakeWhile.symm, rtakeWhile_slash⟩,
    List.rdropWhile_append_rtakeWhile.symm, ?_, ?_, ?_⟩
  · rw [Ne, List.rtakeWhile_eq_nil_iff]
    intro hall
    have hlast := List.rdropWhile_last_not (fun b => b == SLASH) path hne
    have hslash := hall hne
    rw [bne, Bool.not_eq_true', Bool.not_eq_false] at hslash
    exact hlast hslash
  · intro hmem
    have hno := List.mem_rtakeWhile_imp hmem
    rw [bne_self_eq_false] at hno
    cases hno
  · rcases List.eq_nil_or_concat' ((path.rdropWhile (· == SLASH)).rdropWhile (· != SLASH)) with hnil | ⟨b, c, hb⟩
    · exact .inl hnil
    · right
      have hne' : (path.rdropWhile (· == SLASH)).rdropWhile (· != SLASH) ≠ [] := by
        rw [hb]
        exact List.concat_ne_nil c b
      have hlast := List.rdropWhile_last_not (fun b => b != SLASH) _ hne'
      simp only [hb, List.getLast_concat] at hlast
      rw [bne, Bool.not_eq_true', Bool.not_eq_false, beq_iff_eq] at hlast
      exact ⟨b, by rw [hb, hlast]⟩

variable {path head name before : List Byte}

/-- The path of the directory that holds the last name. -/
def dirOf (before : List Byte) : List Byte := if before.length ≤ 1 then [SLASH] else before.dropLast

theorem Parts.names_eq (h : Parts path head name before) :
    names path = names head ∧ names head = names (dirOf before) ++ [name] := by
  obtain ⟨tail, hpath, htail⟩ := h.slashes
  constructor
  · rw [hpath, names_append_slashes htail]
  · have hname := names_single h.name_ne h.name_slash
    rcases h.before with hb | ⟨b, hb⟩
    · rw [h.head, hb, List.nil_append, hname]
      rfl
    · have hbefore : names (dirOf before) = names b := by
        rw [dirOf, hb, List.length_append, List.dropLast_concat]
        by_cases hlen : b.length + [SLASH].length ≤ 1
        · have hnil : b = [] := List.eq_nil_of_length_eq_zero (by rw [List.length_singleton] at hlen; omega)
          rw [if_pos hlen, hnil]
          rfl
        · rw [if_neg hlen]
      rw [hbefore, h.head, hb, List.append_assoc, List.singleton_append, names_append, hname]

theorem Parts.getLast (h : Parts path head name before) : (path.splitOn SLASH).getLast? =
    if head.length < path.length then some [] else some name := by
  obtain ⟨tail, hpath, htail⟩ := h.slashes
  by_cases hnil : tail = []
  · rw [hnil, List.append_nil] at hpath
    rw [hpath, if_neg (Nat.lt_irrefl _)]
    have hname : (name.splitOn SLASH).getLast? = some name := by
      rw [List.splitOn_eq_singleton h.name_slash]
      rfl
    rcases h.before with hb | ⟨b, hb⟩
    · rw [h.head, hb, List.nil_append, hname]
    · rw [h.head, hb, List.append_assoc, List.singleton_append, getLast_splitOn, hname]
  · rw [if_pos]
    · rw [hpath, getLast_splitOn_slashes hnil htail]
    · rw [hpath, List.length_append]
      exact Nat.lt_add_of_pos_right (List.length_pos_of_ne_nil hnil)

namespace VfsState

variable {s s' : VfsState} {d n : NodeId}

theorem Tree.resolve_iff (h : s.Tree) (path : List Byte) :
    (s.resolve path false).2 = .ok n ↔ s.Walks 0 (names path) n := h.resolveLoop_iff h.rootIn path

/-- The node of a path that names a directory only. -/
theorem Tree.asDir_iff (h : s.Tree) {path path' name : List Byte} (hname : name = [] ∨ name = [DOT] ∨ name = [DOT, DOT])
    (hsplit : splitPath path = .ok (path', name)) :
    s.resolvePath path = .ok n ↔ s.Walks 0 (names path') n ∧ s.IsDir n := by
  rw [resolvePath, splitTarget, hsplit, ← h.resolve_iff]
  dsimp only
  cases hr : (s.resolve path' false).2 with
  | error e => exact iff_of_false (fun heq => by cases heq) fun hand => by cases hand.1
  | ok m =>
    dsimp only
    rw [asDir, IsDir]
    by_cases hdir : (s.nodes m).kind = .dir
    · rw [if_neg (not_not.mpr hdir)]
      dsimp only
      rw [if_pos hname]
      constructor
      · intro heq
        obtain rfl := Except.ok.inj heq
        exact ⟨rfl, hdir⟩
      · exact fun hand => hand.1
    · rw [if_pos hdir]
      refine iff_of_false (fun heq => by cases heq) fun hand => ?_
      obtain rfl := Except.ok.inj hand.1
      exact hdir hand.2

/-- The node of a path that ends in a name. -/
theorem Tree.child_iff (h : s.Tree) {path dirPath name : List Byte} (hne : name ≠ []) (hdot : name ≠ [DOT])
    (hup : name ≠ [DOT, DOT]) (hsplit : splitPath path = .ok (dirPath, name)) :
    s.resolvePath path = .ok n ↔ s.Walks 0 (names dirPath ++ [name]) n := by
  rw [resolvePath, splitTarget, hsplit, walks_append]
  dsimp only
  have hspecial : ¬ (name = [] ∨ name = [DOT] ∨ name = [DOT, DOT]) := by
    rintro (h | h | h)
    · exact hne h
    · exact hdot h
    · exact hup h
  have hdown : ∀ m : NodeId, m.val < s.nextNode →
      (s.Walks m [name] n ↔ s.IsDir m ∧ s.findChild m name = some n) := by
    intro m hm
    rw [← h.childNamed_iff hm]
    constructor
    · intro hw
      cases hw with
      | empty => exact absurd rfl hne
      | dot => exact absurd rfl hdot
      | up => exact absurd rfl hup
      | down hd _ _ _ hc hw =>
        cases hw
        exact ⟨hd, hc⟩
    · rintro ⟨hd, hc⟩
      exact .down hd hne hdot hup hc .done
  cases hr : (s.resolve dirPath false).2 with
  | error e =>
    refine iff_of_false (fun heq => by cases heq) ?_
    rintro ⟨m, hm, _⟩
    rw [← h.resolve_iff, hr] at hm
    cases hm
  | ok m =>
    have hm := (h.resolve_iff dirPath).mp hr
    have hlt := h.walks_lt hm h.rootIn
    dsimp only
    have hstep : (∃ m', s.Walks 0 (names dirPath) m' ∧ s.Walks m' [name] n) ↔ s.IsDir m ∧ s.findChild m name = some n := by
      rw [← hdown m hlt]
      constructor
      · rintro ⟨m', hm', hn⟩
        rw [← h.resolve_iff, hr] at hm'
        obtain rfl := Except.ok.inj hm'
        exact hn
      · exact fun hn => ⟨m, hm, hn⟩
    rw [hstep, asDir, IsDir]
    by_cases hdir : (s.nodes m).kind = .dir
    · rw [if_neg (not_not.mpr hdir)]
      dsimp only
      rw [if_neg hspecial]
      dsimp only
      cases hfind : s.findChild m name with
      | none => exact iff_of_false (fun heq => by cases heq) fun hand => by cases hand.2
      | some c =>
        constructor
        · intro heq
          obtain rfl := Except.ok.inj heq
          exact ⟨hdir, rfl⟩
        · rintro ⟨_, heq⟩
          obtain rfl := Option.some.inj heq
          rfl
    · rw [if_pos hdir]
      exact iff_of_false (fun heq => by cases heq) fun hand => hdir hand.1

/-- A resolution that is not of the empty path follows its names. -/
theorem Tree.pathsSpell (h : s.Tree) {path : List Byte} (hpath : path ≠ []) : s.PathsSpell path := by
  intro n
  have hwalk : s.Walks 0 (path.splitOn SLASH) n ↔ s.Walks 0 (names path) n := walks_filter.symm
  rw [hwalk]
  by_cases hhead : path.rdropWhile (· == SLASH) = []
  · have hall : ∀ b ∈ path, b = SLASH := by
      intro b hb
      exact eq_of_beq (List.rdropWhile_eq_nil_iff.mp hhead b hb :)
    have hsplit : splitPath path = .ok ([SLASH], []) := by
      rw [splitPath, if_neg hpath, if_pos hhead]
    have hlast : NamesDir path := .inl (getLast_splitOn_slashes hpath hall [])
    rw [h.asDir_iff (.inl rfl) hsplit, names_slashes hall]
    exact and_congr Iff.rfl ⟨fun hd _ => hd, fun hd => hd hlast⟩
  · have hparts := parts_of_path hhead
    obtain ⟨hnames, hdirs⟩ := hparts.names_eq
    have hlast := hparts.getLast
    by_cases hspecial : (path.rdropWhile (· == SLASH)).rtakeWhile (· != SLASH) = [DOT] ∨
        (path.rdropWhile (· == SLASH)).rtakeWhile (· != SLASH) = [DOT, DOT]
    · have hsplit : splitPath path = .ok (path.rdropWhile (· == SLASH),
          (path.rdropWhile (· == SLASH)).rtakeWhile (· != SLASH)) := by
        rw [splitPath, if_neg hpath, if_neg hhead, if_pos hspecial]
      have hdir : NamesDir path := by
        by_cases hlen : (path.rdropWhile (· == SLASH)).length < path.length
        · rw [if_pos hlen] at hlast
          exact .inl hlast
        · rw [if_neg hlen] at hlast
          rcases hspecial with hs | hs
          · exact .inr (.inl (by rw [hlast, hs]))
          · exact .inr (.inr (by rw [hlast, hs]))
      rw [h.asDir_iff (.inr hspecial) hsplit, ← hnames]
      exact and_congr Iff.rfl ⟨fun hd _ => hd, fun hd => hd hdir⟩
    · by_cases hlong : NAME_MAX ≤ ((path.rdropWhile (· == SLASH)).rtakeWhile (· != SLASH)).length
      · have hsplit : splitPath path = .error .nameTooLong := by
          rw [splitPath, if_neg hpath, if_neg hhead, if_neg hspecial, if_pos hlong]
        rw [resolvePath, splitTarget, hsplit, hnames, hdirs, walks_append]
        refine iff_of_false (fun heq => by cases heq) ?_
        rintro ⟨⟨m, hm, hn⟩, _⟩
        have hlt := h.walks_lt hm h.rootIn
        -- the last step would need a child with that name
        generalize hname : (path.rdropWhile (· == SLASH)).rtakeWhile (· != SLASH) = name at hn hspecial hlong
        have hne := hparts.name_ne
        rw [hname] at hne
        cases hn with
        | empty => exact hne rfl
        | dot => exact hspecial (.inl rfl)
        | up => exact hspecial (.inr rfl)
        | down _ _ _ _ hc =>
          have hshort := (h.findChild_lt hlt ((h.childNamed_iff hlt).mp hc)).2.2
          exact Nat.lt_irrefl _ (hshort.trans_le hlong)
      · by_cases hlen : (path.rdropWhile (· == SLASH)).length < path.length
        · have hsplit : splitPath path = .ok (path.rdropWhile (· == SLASH), []) := by
            rw [splitPath, if_neg hpath, if_neg hhead, if_neg hspecial, if_neg hlong, if_pos hlen]
          rw [if_pos hlen] at hlast
          rw [h.asDir_iff (.inl rfl) hsplit, ← hnames]
          exact and_congr Iff.rfl ⟨fun hd _ => hd, fun hd => hd (.inl hlast)⟩
        · have hsplit : splitPath path = .ok (dirOf ((path.rdropWhile (· == SLASH)).rdropWhile (· != SLASH)),
              (path.rdropWhile (· == SLASH)).rtakeWhile (· != SLASH)) := by
            rw [splitPath, if_neg hpath, if_neg hhead, if_neg hspecial, if_neg hlong, if_neg hlen]
            rfl
          rw [if_neg hlen] at hlast
          have hnot : ¬ NamesDir path := by
            rw [NamesDir, hlast]
            rintro (hs | hs | hs)
            · exact hparts.name_ne (Option.some.inj hs)
            · exact hspecial (.inl (Option.some.inj hs))
            · exact hspecial (.inr (Option.some.inj hs))
          rw [h.child_iff hparts.name_ne (fun hs => hspecial (.inl hs)) (fun hs => hspecial (.inr hs)) hsplit,
            hnames, hdirs]
          exact ⟨fun hw => ⟨hw, fun hs => absurd hs hnot⟩, fun hw => hw.1⟩

/-! ## The operations keep the tree -/

/-- Sizes, offsets and bytes do not matter. -/
structure SameLinks (s s' : VfsState) : Prop where
  nextNode : s'.nextNode = s.nextNode
  node : ∀ i, (s'.nodes i).parent = (s.nodes i).parent ∧ (s'.nodes i).firstChild = (s.nodes i).firstChild ∧
    (s'.nodes i).nextSibling = (s.nodes i).nextSibling ∧ (s'.nodes i).name = (s.nodes i).name ∧
    (s'.nodes i).kind = (s.nodes i).kind

theorem SameLinks.refl (s : VfsState) : SameLinks s s := ⟨rfl, fun _ => ⟨rfl, rfl, rfl, rfl, rfl⟩⟩

theorem SameLinks.trans {s'' : VfsState} (h : SameLinks s s') (h' : SameLinks s' s'') : SameLinks s s'' := by
  refine ⟨h'.nextNode.trans h.nextNode, fun i => ?_⟩
  obtain ⟨hp, hf, hn, hna, hk⟩ := h.node i
  obtain ⟨hp', hf', hn', hna', hk'⟩ := h'.node i
  exact ⟨hp'.trans hp, hf'.trans hf, hn'.trans hn, hna'.trans hna, hk'.trans hk⟩

theorem SameLinks.tree (h : SameLinks s s') (hs : s.Tree) : s'.Tree := by
  refine ⟨by rw [h.nextNode]; exact hs.rootIn, (h.node 0).2.2.2.2.trans hs.rootDir, (h.node 0).1.trans hs.rootUp, ?_, ?_⟩
  · intro c e hc hce
    rw [h.nextNode] at hc
    rw [(h.node c).1] at hce
    exact hs.up hc hce
  · intro e he
    rw [h.nextNode] at he
    obtain ⟨l, hl⟩ := hs.kids e he
    exact ⟨l, hl.congr (h.node e).2.1 (fun i _ => (h.node i).2.2.1) h.nextNode.ge
      fun i _ => ⟨(h.node i).1, (h.node i).2.2.2.1⟩⟩

theorem sameLinks_setNode {node : RamfsNode} (hp : node.parent = (s.nodes n).parent)
    (hf : node.firstChild = (s.nodes n).firstChild) (hn : node.nextSibling = (s.nodes n).nextSibling)
    (hna : node.name = (s.nodes n).name) (hk : node.kind = (s.nodes n).kind) : SameLinks s (s.setNode n node) := by
  refine ⟨rfl, fun i => ?_⟩
  rw [setNode]
  dsimp only
  by_cases hi : i = n
  · subst hi
    rw [Function.update_self]
    exact ⟨hp, hf, hn, hna, hk⟩
  · rw [Function.update_of_ne hi]
    exact ⟨rfl, rfl, rfl, rfl, rfl⟩

theorem sameLinks_truncateNode (n : NodeId) (len : Nat) : SameLinks s (s.truncateNode n len) := by
  rw [truncateNode]
  split
  · exact sameLinks_setNode rfl rfl rfl rfl rfl
  · exact SameLinks.refl s

theorem sameLinks_writeFile (n : NodeId) (offset : Nat) (buf : List Byte) :
    SameLinks s (s.writeFile n offset buf).1 := by
  have hset : ∀ {node : RamfsNode} {data used}, node.parent = (s.nodes n).parent →
      node.firstChild = (s.nodes n).firstChild → node.nextSibling = (s.nodes n).nextSibling →
      node.name = (s.nodes n).name → node.kind = (s.nodes n).kind →
      SameLinks s { s.setNode n node with data := data, dataUsed := used } :=
    fun hp hf hn hna hk => ⟨rfl, (sameLinks_setNode hp hf hn hna hk).node⟩
  rw [writeFile]
  split
  · exact SameLinks.refl s
  split
  · exact SameLinks.refl s
  split
  · exact ⟨rfl, fun _ => ⟨rfl, rfl, rfl, rfl, rfl⟩⟩
  split
  · exact hset rfl rfl rfl rfl rfl
  split
  · exact hset rfl rfl rfl rfl rfl
  · exact SameLinks.refl s

/-- The name that `split_path` gives is short. -/
theorem splitPath_length {path dirPath name : List Byte} (h : splitPath path = .ok (dirPath, name)) :
    name.length < NAME_MAX := by
  rw [splitPath] at h
  split at h
  · cases h
  split at h
  · obtain ⟨_, rfl⟩ := Prod.mk.inj (Except.ok.inj h)
    decide
  split at h
  · rename_i hspecial
    obtain ⟨_, rfl⟩ := Prod.mk.inj (Except.ok.inj h)
    rcases hspecial with hs | hs
    · rw [hs]
      decide
    · rw [hs]
      decide
  split at h
  · cases h
  rename_i hlen
  split at h
  · obtain ⟨_, rfl⟩ := Prod.mk.inj (Except.ok.inj h)
    decide
  · obtain ⟨_, rfl⟩ := Prod.mk.inj (Except.ok.inj h)
    exact Nat.lt_of_not_le hlen

/-- The node that a path leads to, or the directory of its last name, was given out. -/
theorem Tree.splitTarget (h : s.Tree) {path : List Byte} {target : PathTarget} (ht : s.splitTarget path = .ok target) :
    match target with
    | .child d name => d.val < s.nextNode ∧ name.length < NAME_MAX
    | .dir d _ => d.val < s.nextNode := by
  rw [VfsState.splitTarget] at ht
  cases hsplit : splitPath path with
  | error e =>
    rw [hsplit] at ht
    cases ht
  | ok parts =>
    obtain ⟨dirPath, name⟩ := parts
    rw [hsplit] at ht
    dsimp only at ht
    cases hr : (s.resolve dirPath false).2 with
    | error e =>
      rw [hr] at ht
      cases ht
    | ok m =>
      have hm := h.walks_lt ((h.resolve_iff dirPath).mp hr) h.rootIn
      rw [hr] at ht
      dsimp only [asDir] at ht
      split at ht
      · cases ht
      · rename_i d hd
        split at hd
        · cases hd
        · obtain rfl := Except.ok.inj hd
          split at ht
          · obtain rfl := Except.ok.inj ht
            exact hm
          · obtain rfl := Except.ok.inj ht
            exact ⟨hm, splitPath_length hsplit⟩

theorem Tree.openNode (h : s.Tree) (path : List Byte) (flags mode : BitVec 32) : (s.openNode path flags mode).1.Tree := by
  rw [VfsState.openNode]
  split
  · exact h
  · split <;> exact h
  · rename_i d name ht
    obtain ⟨hd, hname⟩ := h.splitTarget ht
    split
    · rename_i hfree
      split
      · exact h
      · have hc := (h.createChild hd hname hfree (if flags &&& O_DIRECTORY ≠ 0 then .dir else .file) mode).1
        split
        · rename_i hcreate
          rwa [hcreate] at hc
        · rename_i hcreate
          rwa [hcreate] at hc
    · split <;> exact h

theorem Tree.openPath (h : s.Tree) (path : List Byte) (flags mode : BitVec 32) : (s.openPath path flags mode).1.Tree := by
  have ho := h.openNode path flags mode
  rw [VfsState.openPath]
  cases hopen : s.openNode path flags mode with
  | mk s' r =>
    rw [hopen] at ho
    cases r with
    | error e => exact ho
    | ok m =>
      dsimp only
      split
      · exact ho
      split
      · exact ho
      split
      · exact (sameLinks_truncateNode m 0).tree ho
      · exact ho

theorem Tree.mkdir (h : s.Tree) (path : List Byte) (mode : BitVec 32) : (s.mkdir path mode).1.Tree := by
  rw [VfsState.mkdir]
  split
  · exact h
  · exact h
  · rename_i d name ht
    obtain ⟨hd, hname⟩ := h.splitTarget ht
    split
    · exact h
    · rename_i hfree
      have hc := (h.createChild hd hname hfree .dir mode).1
      split
      · rename_i hcreate
        rwa [hcreate] at hc
      · rename_i hcreate
        rwa [hcreate] at hc

theorem Tree.unlinkNode (h : s.Tree) {target : NodeId} (ht : target.val < s.nextNode) (flags : BitVec 32) :
    (s.unlinkNode target flags).1.Tree := by
  rw [VfsState.unlinkNode]
  split
  · exact h
  split
  · exact h
  split
  · exact h
  · rename_i hparent
    split
    · exact h
    · exact h.remove ht hparent

theorem Tree.unlink (h : s.Tree) (path : List Byte) (flags : BitVec 32) : (s.unlink path flags).1.Tree := by
  rw [VfsState.unlink]
  split
  · exact h
  · rename_i d name ht
    obtain ⟨hd, _⟩ := h.splitTarget ht
    split
    · exact h
    · rename_i hfind
      exact h.unlinkNode (h.findChild_lt hd hfind).1 flags
  · rename_i ht
    split
    · exact h.unlinkNode (h.splitTarget ht) flags
    · split
      · exact h
      · split <;> exact h

theorem Tree.injectTarget (h : s.Tree) (path : List Byte) : (s.injectTarget path).1.Tree := by
  rw [VfsState.injectTarget]
  split
  · exact h
  · rename_i dirPath name hsplit
    split
    · exact h
    · have hr := h.resolveLoop true 0 h.rootIn dirPath
      rw [resolve]
      split
      · rename_i hresolve
        rw [hresolve] at hr
        exact hr.tree
      · rename_i d hresolve
        rw [hresolve] at hr
        split
        · rename_i hfree
          exact (hr.tree.createChild (hr.node d rfl) (splitPath_length hsplit) hfree .file 0o644).1
        · exact hr.tree

theorem Tree.injectFile (h : s.Tree) (path data : List Byte) : (s.injectFile path data).1.Tree := by
  have hi := h.injectTarget path
  rw [VfsState.injectFile]
  cases htarget : s.injectTarget path with
  | mk s' target =>
    rw [htarget] at hi
    cases target with
    | none => exact hi
    | some m =>
      have hw := (sameLinks_truncateNode (s := s') m 0).trans (sameLinks_writeFile m 0 data)
      dsimp only
      split
      · exact hi
      · cases hwrite : (s'.truncateNode m 0).writeFile m 0 data with
        | mk s'' r =>
          rw [hwrite] at hw
          cases r <;> exact hw.tree hi

theorem Tree.step (h : s.Tree) (op : FsOp) : (s.step op).Tree := by
  cases op with
  | openPath path flags mode => exact h.openPath path flags mode
  | readNode idx offset len => exact h
  | writeNode idx offset buf =>
    rw [VfsState.step, writeNode]
    split
    · exact h
    · split
      · exact h
      · exact (sameLinks_writeFile _ offset buf).tree h
  | truncate idx len =>
    rw [VfsState.step, truncate]
    split
    · exact h
    · split
      · exact h
      · exact (sameLinks_truncateNode _ len).tree h
  | mkdir path mode => exact h.mkdir path mode
  | unlink path flags => exact h.unlink path flags
  | injectFile path data => exact h.injectFile path data

theorem init_tree : init.Tree := by
  refine ⟨Nat.one_pos, rfl, rfl, fun {c d} hc hparent => ?_, fun d hd => ?_⟩
  · have hzero : c = 0 := Fin.ext (Nat.lt_one_iff.mp hc)
    subst hzero
    cases hparent
  · have hzero : d = 0 := Fin.ext (Nat.lt_one_iff.mp hd)
    subst hzero
    exact ⟨[], Chain.nil, fun c hc => (by cases hc), List.nodup_nil⟩

end VfsState

open VfsState in
/-- In every run from `init` the nodes that can be reached form a tree, whose sibling loops end, and the
resolution of every path but the empty one finds the node that the walk along its names ends at. -/
theorem ramfs_tree_paths (l : List FsOp) :
    Run.Always VfsState.step (fun s => s.IsTree ∧ ∀ path, path ≠ [] → s.PathsSpell path) init l :=
  Run.always_of_invariant (G := fun _ _ => True) (fun _ op h _ => h.step op)
    (fun _ h => ⟨h.isTree, fun _ hpath => h.pathsSpell hpath⟩) init_tree Run.along_true

/-- The empty path has no names, so the walk stays at the root; the resolution refuses it. -/
theorem empty_path_refused : ¬ VfsState.init.PathsSpell [] := by
  intro h
  have hok := (h 0).mpr ⟨.empty .done, fun _ => rfl⟩
  cases hok

end Pyremu.Sittim
