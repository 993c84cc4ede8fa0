import Mathlib.Data.List.Basic
import Mathlib.Data.List.Nodup
import Mathlib.Tactic

/-!
# Linked lists

Singly linked lists in a memory of nodes. The address of a node is its place in the memory, to
which a new node is added at the end. A pointer is the address of a node or `none`.

A segment (`Seg`) is what is reached from a pointer by following the links, up to another
pointer. Segments are put together and cut at any node (`seg_append`), and a write leaves the
segments which do not have its node as they are (`Seg.modify`), so that inserting a node is a
matter of the segments before and after it (`Seg.insert`). A loop which changes the contents of
the nodes goes through the list (`Seg.forNodes`).

`Lists` are several lists in one memory, each with a pointer to its last node too, where nodes
are added (`Lists.Have.add`).
-/

namespace RealtimeTests.Linked

variable {α σ : Type*}

/-- A node, with the link to the next one. -/
structure Node (α : Type*) where
  next : Option ℕ
  val : α
  deriving DecidableEq

/-- The nodes of the memory, by address. -/
abbrev Memory (α : Type*) := List (Node α)

variable {mem : Memory α} {p q r : Option ℕ} {cells cells' : List (ℕ × α)} {a : ℕ}

/-- The link of a node is set. -/
def setNext (mem : Memory α) (a : ℕ) (next : Option ℕ) : Memory α :=
  mem.modify a fun node => { node with next }

/-- The content of a node is changed. -/
def setVal (mem : Memory α) (a : ℕ) (f : α → α) : Memory α :=
  mem.modify a fun node => { node with val := f node.val }

/-- A new node is added to the memory. -/
def alloc (mem : Memory α) (next : Option ℕ) (val : α) : Memory α := mem ++ [⟨next, val⟩]

/-- The addresses of the nodes of a list. -/
abbrev addrs (cells : List (ℕ × α)) : List ℕ := cells.map Prod.fst

/-- The contents of the nodes of a list. -/
abbrev vals (cells : List (ℕ × α)) : List α := cells.map Prod.snd

/-! ## Segments -/

/-- From `p`, the links go through the nodes `cells`, and then to `q`. -/
def Seg (mem : Memory α) : Option ℕ → List (ℕ × α) → Option ℕ → Prop
  | p, [], q => p = q
  | p, (a, x) :: cells, q => p = some a ∧ ∃ next, mem[a]? = some ⟨next, x⟩ ∧ Seg mem next cells q

/-- A segment of no node, up to the end, starts at the end. -/
theorem Seg.eq_nil (h : Seg mem none cells q) : cells = [] := by
  cases cells with
  | nil => rfl
  | cons cell cells => exact absurd h.1 (by simp)

/-- There is one way to the end. -/
theorem Seg.unique (h : Seg mem p cells none) (h' : Seg mem p cells' none) : cells = cells' := by
  induction cells generalizing p cells' with
  | nil =>
    obtain rfl : p = none := h
    exact h'.eq_nil.symm
  | cons cell cells ih =>
    obtain ⟨rfl, next, hnode, h⟩ := h
    cases cells' with
    | nil => exact absurd h' (by simp [Seg])
    | cons cell' cells' =>
      obtain ⟨hp, next', hnode', h'⟩ := h'
      obtain ⟨a, x⟩ := cell
      obtain ⟨a', x'⟩ := cell'
      obtain rfl : a = a' := Option.some.inj hp
      obtain ⟨rfl, rfl⟩ : next = next' ∧ x = x' := by
        have heq := Option.some.inj (hnode.symm.trans hnode')
        injection heq with hnext hx
        exact ⟨hnext, hx⟩
      rw [ih h h']

/-- A segment is cut anywhere. -/
theorem seg_append : Seg mem p (cells ++ cells') r ↔
    ∃ q, Seg mem p cells q ∧ Seg mem q cells' r := by
  induction cells generalizing p with
  | nil => exact ⟨fun h => ⟨p, rfl, h⟩, fun ⟨_, hpq, h⟩ => hpq ▸ h⟩
  | cons cell cells ih =>
    constructor
    · rintro ⟨hp, next, hnode, h⟩
      obtain ⟨q, hq, hr⟩ := ih.1 h
      exact ⟨q, ⟨hp, next, hnode, hq⟩, hr⟩
    · rintro ⟨q, ⟨hp, next, hnode, hq⟩, hr⟩
      exact ⟨hp, next, hnode, ih.2 ⟨q, hq, hr⟩⟩

/-- The nodes of a segment are in the memory. -/
theorem Seg.lt_length (h : Seg mem p cells q) (ha : a ∈ addrs cells) : a < mem.length := by
  induction cells generalizing p with
  | nil => exact absurd ha List.not_mem_nil
  | cons cell cells ih =>
    obtain ⟨_, next, hnode, h⟩ := h
    rcases List.mem_cons.1 ha with rfl | ha
    · exact (List.getElem?_eq_some_iff.1 hnode).1
    · exact ih h ha

/-- So are their contents. -/
theorem Seg.getElem? {x : α} (h : Seg mem p cells q) (ha : (a, x) ∈ cells) :
    ∃ next, mem[a]? = some ⟨next, x⟩ := by
  induction cells generalizing p with
  | nil => exact absurd ha List.not_mem_nil
  | cons cell cells ih =>
    obtain ⟨_, next, hnode, h⟩ := h
    rcases List.mem_cons.1 ha with rfl | ha
    · exact ⟨next, hnode⟩
    · exact ih h ha

/-- There are no more nodes than in the memory. -/
theorem Seg.length_le (h : Seg mem p cells q) (hnodup : (addrs cells).Nodup) :
    cells.length ≤ mem.length := by
  have hsub : addrs cells ⊆ List.range mem.length := fun a ha => List.mem_range.2 (h.lt_length ha)
  simpa using (List.subperm_of_subset hnodup hsub).length_le

/-- A segment depends on its nodes only. -/
theorem Seg.congr {mem' : Memory α} (h : Seg mem p cells q)
    (heq : ∀ a ∈ addrs cells, mem'[a]? = mem[a]?) : Seg mem' p cells q := by
  induction cells generalizing p with
  | nil => exact h
  | cons cell cells ih =>
    obtain ⟨hp, next, hnode, h⟩ := h
    refine ⟨hp, next, ?_, ih h fun a ha => heq a (List.mem_cons_of_mem _ ha)⟩
    rw [heq _ List.mem_cons_self, hnode]

/-- A write to another node leaves a segment as it is. -/
theorem Seg.modify (h : Seg mem p cells q) (ha : a ∉ addrs cells) (f : Node α → Node α) :
    Seg (mem.modify a f) p cells q :=
  h.congr fun _ hb => List.getElem?_modify_ne f mem fun hab => ha (hab ▸ hb)

theorem Seg.alloc (h : Seg mem p cells q) (next : Option ℕ) (x : α) :
    Seg (alloc mem next x) p cells q :=
  h.congr fun _ hb => List.getElem?_append_left (h.lt_length hb)

/-- The new node is after the nodes that there were. -/
theorem getElem?_alloc (mem : Memory α) (next : Option ℕ) (x : α) :
    (Linked.alloc mem next x)[mem.length]? = some ⟨next, x⟩ :=
  List.getElem?_concat_length

/-- The link of the new node is set. -/
@[simp]
theorem setNext_alloc (mem : Memory α) (next q : Option ℕ) (x : α) :
    setNext (Linked.alloc mem next x) mem.length q = Linked.alloc mem q x :=
  List.modifyTailIdx_add _ 0 mem [⟨next, x⟩]

/-- The link of the last node of a segment may be set. -/
theorem Seg.setNext {x : α} (h : Seg mem p (cells ++ [(a, x)]) q) (ha : a ∉ addrs cells)
    (r : Option ℕ) : Seg (setNext mem a r) p (cells ++ [(a, x)]) r := by
  obtain ⟨_, hcells, rfl, next, hnode, -⟩ := seg_append.1 h
  refine seg_append.2 ⟨_, hcells.modify ha _, rfl, r, ?_, rfl⟩
  rw [Linked.setNext, List.getElem?_modify_eq, hnode]
  rfl

/-- The content of a node of a segment may be changed. -/
theorem Seg.setVal {x : α} (h : Seg mem p (cells ++ (a, x) :: cells') q)
    (hnodup : (addrs (cells ++ (a, x) :: cells')).Nodup) (f : α → α) :
    Seg (setVal mem a f) p (cells ++ (a, f x) :: cells') q := by
  obtain ⟨_, hcells, rfl, next, hnode, hrest⟩ := seg_append.1 h
  rw [addrs, List.map_append, List.map_cons, List.nodup_middle, List.nodup_cons,
    List.mem_append, not_or] at hnodup
  refine seg_append.2 ⟨_, hcells.modify hnodup.1.1 _, rfl, next, ?_, hrest.modify hnodup.1.2 _⟩
  rw [Linked.setVal, List.getElem?_modify_eq, hnode]
  rfl

/-! ## Lists -/

/-- From `p`, the links go through nodes with the contents `xs`, all of them different, to the
    end of the list. -/
def Holds (mem : Memory α) (p : Option ℕ) (xs : List α) : Prop :=
  ∃ cells, Seg mem p cells none ∧ (addrs cells).Nodup ∧ vals cells = xs

theorem holds_nil (mem : Memory α) : Holds mem none [] := ⟨[], rfl, List.nodup_nil, rfl⟩

theorem Holds.eq_nil {xs : List α} (h : Holds mem none xs) : xs = [] := by
  obtain ⟨cells, hseg, -, rfl⟩ := h
  rw [hseg.eq_nil]
  rfl

/-- A new node is put before a list. -/
theorem Seg.push {x : α} (h : Seg mem p cells none) (hnodup : (addrs cells).Nodup) :
    Seg (Linked.alloc mem p x) (some mem.length) ((mem.length, x) :: cells) none ∧
      (addrs ((mem.length, x) :: cells)).Nodup :=
  ⟨⟨rfl, p, getElem?_alloc _ _ _, h.alloc _ _⟩,
    List.nodup_cons.2 ⟨fun ha => absurd (h.lt_length ha) (lt_irrefl _), hnodup⟩⟩

/-- A new node is put between the last node of a segment and what follows. -/
theorem Seg.insert {x y : α} (h : Seg mem p (cells ++ [(a, x)]) q) (h' : Seg mem q cells' none)
    (hnodup : (addrs (cells ++ [(a, x)] ++ cells')).Nodup) :
    Seg (Linked.setNext (Linked.alloc mem q y) a (some mem.length)) p
        (cells ++ [(a, x)] ++ (mem.length, y) :: cells') none ∧
      (addrs (cells ++ [(a, x)] ++ (mem.length, y) :: cells')).Nodup := by
  have hall : Seg mem p (cells ++ [(a, x)] ++ cells') none := seg_append.2 ⟨q, h, h'⟩
  have hfresh : mem.length ∉ addrs (cells ++ [(a, x)] ++ cells') := fun ha =>
    absurd (hall.lt_length ha) (lt_irrefl _)
  have hne : mem.length ≠ a := by
    rintro rfl
    exact hfresh (by simp [addrs])
  have hdisj := List.nodup_append.1 (by simpa only [addrs, List.map_append] using hnodup)
  have ha : a ∉ addrs cells := fun ha =>
    (List.nodup_append.1 hdisj.1).2.2 a ha a (by simp) rfl
  have ha' : a ∉ addrs cells' := fun ha' => hdisj.2.2 a (by simp) a ha' rfl
  constructor
  · refine seg_append.2 ⟨some mem.length, (h.alloc _ _).setNext ha _, rfl, q, ?_,
      (h'.alloc _ _).modify ha' _⟩
    rw [Linked.setNext, List.getElem?_modify_ne _ _ hne.symm, getElem?_alloc]
  · rw [addrs, List.map_append, List.map_cons, List.nodup_middle, List.nodup_cons,
      ← List.map_append]
    exact ⟨hfresh, hnodup⟩

/-! ## Going through a list -/

/-- The loop which goes from a node to the next one, until the end of the list. -/
def forEach (mem : Memory α) (f : σ → α → σ) : ℕ → Option ℕ → σ → Option σ
  | _, none, s => some s
  | 0, some _, _ => none
  | fuel + 1, some a, s =>
    match mem[a]? with
    | none => none
    | some node => forEach mem f fuel node.next (f s node.val)

/-- The loop ends, after the contents of the list, in order. -/
theorem Holds.forEach {xs : List α} (h : Holds mem p xs) (f : σ → α → σ) {fuel : ℕ}
    (hfuel : xs.length ≤ fuel) (s : σ) : forEach mem f fuel p s = some (xs.foldl f s) := by
  obtain ⟨cells, hseg, -, rfl⟩ := h
  induction cells generalizing p s fuel with
  | nil =>
    obtain rfl : p = none := hseg
    cases fuel <;> rfl
  | cons cell cells ih =>
    obtain ⟨rfl, next, hnode, hseg⟩ := hseg
    cases fuel with
    | zero => exact absurd hfuel (by simp)
    | succ fuel =>
      rw [Linked.forEach, hnode]
      exact ih _ hseg (by simpa using hfuel)

/-- The links of a memory. -/
abbrev links (mem : Memory α) : List (Option ℕ) := mem.map Node.next

theorem links_setVal (mem : Memory α) (a : ℕ) (f : α → α) :
    links (Linked.setVal mem a f) = links mem := by
  refine List.ext_getElem? fun i => ?_
  rw [List.getElem?_map, List.getElem?_map, Linked.setVal, List.getElem?_modify]
  cases mem[i]? with
  | none => rfl
  | some node => by_cases ha : a = i <;> simp [ha]

section Loop

variable {τ ε : Type}

theorem bind_eq_pure {x : ExceptT ε Option τ} {f : τ → ExceptT ε Option τ} {s' : τ}
    (h : x >>= f = pure s') : ∃ s, x = pure s ∧ f s = pure s' := by
  cases hx : x.run with
  | none =>
    rw [show x = ExceptT.mk none from hx] at h
    cases h
  | some r =>
    cases r with
    | error e =>
      rw [show x = throw e from hx] at h
      cases h
    | ok s => exact ⟨s, hx, by rwa [show x = pure s from hx, pure_bind] at h⟩

/-- What follows only matters for the states that are reached. -/
theorem bind_congr_pure {x : ExceptT ε Option τ} {f g : τ → ExceptT ε Option τ}
    (h : ∀ s, x = pure s → f s = g s) : x >>= f = x >>= g := by
  cases hx : x.run with
  | none =>
    rw [show x = ExceptT.mk none from hx]
    rfl
  | some r =>
    cases r with
    | error e =>
      rw [show x = throw e from hx]
      rfl
    | ok s =>
      have hx : x = pure s := hx
      rw [hx, pure_bind, pure_bind, h s hx]

/-- The loop which goes from a node to the next one, until the end of a list, and whose body changes
    the contents of the nodes or stops it: the link of a node is read after the body. -/
def forNodes (mem : τ → Memory α) (body : τ → ℕ → ExceptT ε Option τ) :
    ℕ → Option ℕ → τ → ExceptT ε Option τ
  | _, none, s => pure s
  | 0, some _, _ => ExceptT.mk none
  | fuel + 1, some a, s => do
    let s ← body s a
    match (mem s)[a]? with
    | none => ExceptT.mk none
    | some node => forNodes mem body fuel node.next s

/-- When the body leaves the links as they are, the loop goes through the nodes of the list. -/
theorem Seg.forNodes {mem₀ : Memory α} (h : Seg mem₀ p cells none) {mem : τ → Memory α}
    {body : τ → ℕ → ExceptT ε Option τ}
    (hbody : ∀ s a s', body s a = pure s' → links (mem s') = links (mem s)) {s : τ}
    (hs : links (mem s) = links mem₀) {fuel : ℕ} (hfuel : cells.length ≤ fuel) :
    forNodes mem body fuel p s = (addrs cells).foldlM body s := by
  induction cells generalizing p s fuel with
  | nil =>
    obtain rfl : p = none := h
    cases fuel <;> rfl
  | cons cell cells ih =>
    obtain ⟨rfl, next, hnode, h⟩ := h
    cases fuel with
    | zero => exact absurd hfuel (by simp)
    | succ fuel =>
      rw [Linked.forNodes, addrs, List.map_cons, List.foldlM_cons]
      have hnext (s' : τ) (hs' : body s cell.1 = pure s') :
          ∃ node, (mem s')[cell.1]? = some node ∧ node.next = next := by
        have hlink : (links (mem s'))[cell.1]? = some next := by
          rw [hbody _ _ _ hs', hs, List.getElem?_map, hnode]
          rfl
        rw [List.getElem?_map] at hlink
        exact Option.map_eq_some_iff.1 hlink
      refine bind_congr_pure fun s' hs' => ?_
      obtain ⟨node, hnode', rfl⟩ := hnext s' hs'
      simp only [hnode']
      exact ih h ((hbody _ _ _ hs').trans hs) (by simpa using hfuel)

end Loop

/-! ## Lists with a pointer to the last node -/

/-- The pointers to the first and the last node of a list. -/
structure Head where
  first : Option ℕ
  last : Option ℕ
  deriving DecidableEq

/-- Some lists in one memory. -/
structure Lists (ι α : Type*) where
  mem : Memory α
  heads : ι → Head

namespace Lists

variable {ι : Type*} {L : Lists ι α} {nodes : ι → List (ℕ × α)}

/-- The lists are made of the given nodes, and the pointers to the last ones are right. -/
structure Have (L : Lists ι α) (nodes : ι → List (ℕ × α)) : Prop where
  seg : ∀ i, Seg L.mem (L.heads i).first (nodes i) none
  last : ∀ i, (L.heads i).last = (addrs (nodes i)).getLast?
  nodup : ∀ i, (addrs (nodes i)).Nodup
  disjoint : ∀ i j, i ≠ j → ∀ a ∈ addrs (nodes i), a ∉ addrs (nodes j)

/-- The content of a node is changed. -/
def setVal (L : Lists ι α) (a : ℕ) (f : α → α) : Lists ι α :=
  { L with mem := Linked.setVal L.mem a f }

/-- A node is put at the end of a list. -/
def add [DecidableEq ι] (L : Lists ι α) (i : ι) (new : ℕ) : Lists ι α :=
  let head := L.heads i
  let mem := Linked.setNext L.mem new none
  { mem :=
      match head.last with
      | none => mem
      | some last => Linked.setNext mem last (some new)
    heads := Function.update L.heads i
      ⟨match head.first with
        | none => some new
        | some first => some first, some new⟩ }

@[simp]
theorem length_setVal (L : Lists ι α) (a : ℕ) (f : α → α) :
    (L.setVal a f).mem.length = L.mem.length := List.length_modify ..

@[simp]
theorem length_add [DecidableEq ι] (L : Lists ι α) (i : ι) (new : ℕ) :
    (L.add i new).mem.length = L.mem.length := by
  simp only [add]
  cases (L.heads i).last with
  | none => exact List.length_modify ..
  | some last => exact (List.length_modify ..).trans (List.length_modify ..)

/-- A new node is in no list. -/
theorem Have.length_notMem (h : L.Have nodes) (i : ι) : L.mem.length ∉ addrs (nodes i) :=
  fun hmem => absurd ((h.seg i).lt_length hmem) (lt_irrefl _)

/-- A node which is in no list is changed. -/
theorem Have.modify (h : L.Have nodes) (ha : ∀ i, a ∉ addrs (nodes i)) (f : Node α → Node α) :
    Have { L with mem := L.mem.modify a f } nodes where
  seg i := (h.seg i).modify (ha i) f
  last := h.last
  nodup := h.nodup
  disjoint := h.disjoint

theorem Have.alloc (h : L.Have nodes) (next : Option ℕ) (x : α) :
    Have { L with mem := Linked.alloc L.mem next x } nodes where
  seg i := (h.seg i).alloc next x
  last := h.last
  nodup := h.nodup
  disjoint := h.disjoint

/-- A node is in one list only. -/
theorem Have.notMem (h : L.Have nodes) {i j : ι} (hij : j ≠ i) (ha : a ∈ addrs (nodes i)) :
    a ∉ addrs (nodes j) :=
  h.disjoint i j hij.symm a ha

variable [DecidableEq ι]

/-- One of the lists changes. -/
theorem Have.update (h : L.Have nodes) {L' : Lists ι α} {i : ι} {cells : List (ℕ × α)}
    (hseg : Seg L'.mem (L'.heads i).first cells none)
    (hlast : (L'.heads i).last = (addrs cells).getLast?) (hnodup : (addrs cells).Nodup)
    (hdisjoint : ∀ j, j ≠ i → ∀ a ∈ addrs cells, a ∉ addrs (nodes j))
    (hsame : ∀ j, j ≠ i → L'.heads j = L.heads j ∧ Seg L'.mem (L.heads j).first (nodes j) none) :
    L'.Have (Function.update nodes i cells) := by
  refine ⟨fun j => ?_, fun j => ?_, fun j => ?_, fun j k hjk a ha => ?_⟩
  · by_cases hj : j = i
    · subst hj
      rwa [Function.update_self]
    · rw [Function.update_of_ne hj, (hsame j hj).1]
      exact (hsame j hj).2
  · by_cases hj : j = i
    · subst hj
      rwa [Function.update_self]
    · rw [Function.update_of_ne hj, (hsame j hj).1]
      exact h.last j
  · by_cases hj : j = i
    · subst hj
      rwa [Function.update_self]
    · rw [Function.update_of_ne hj]
      exact h.nodup j
  · by_cases hj : j = i
    · subst hj
      rw [Function.update_self] at ha
      rw [Function.update_of_ne hjk.symm]
      exact hdisjoint k hjk.symm a ha
    · rw [Function.update_of_ne hj] at ha
      by_cases hk : k = i
      · subst hk
        rw [Function.update_self]
        exact fun ha' => hdisjoint j hj a ha' ha
      · rw [Function.update_of_ne hk]
        exact h.disjoint j k hjk a ha

/-- The content of the last node of a list is changed. -/
theorem Have.setVal {i : ι} {cells : List (ℕ × α)} {x : α} (h : L.Have nodes)
    (hcells : nodes i = cells ++ [(a, x)]) (f : α → α) :
    (L.setVal a f).Have (Function.update nodes i (cells ++ [(a, f x)])) := by
  have haddrs : addrs (cells ++ [(a, f x)]) = addrs (nodes i) := by
    rw [hcells]
    simp [addrs]
  have hmem : a ∈ addrs (nodes i) := by
    rw [hcells]
    simp [addrs]
  refine h.update ?_ ?_ ?_ (fun j hj b hb => ?_) fun j hj => ⟨rfl, ?_⟩
  · exact Seg.setVal (hcells ▸ h.seg i) (hcells ▸ h.nodup i) f
  · rw [haddrs]
    exact h.last i
  · rw [haddrs]
    exact h.nodup i
  · rw [haddrs] at hb
    exact h.notMem hj hb
  · exact (h.seg j).modify (h.notMem hj hmem) _

/-- A node which is in no list is put at the end of one. -/
theorem Have.add (h : L.Have nodes) {next : Option ℕ} {x : α} (ha : ∀ i, a ∉ addrs (nodes i))
    (hnode : L.mem[a]? = some ⟨next, x⟩) (i : ι) :
    (L.add i a).Have (Function.update nodes i (nodes i ++ [(a, x)])) := by
  have hfresh := h.modify ha fun node => { node with next := none }
  have hnew : (Linked.setNext L.mem a none)[a]? = some ⟨none, x⟩ := by
    rw [Linked.setNext, List.getElem?_modify_eq, hnode]
    rfl
  have hheads : (L.add i a).heads i = ⟨match (L.heads i).first with
      | none => some a
      | some first => some first, some a⟩ := Function.update_self ..
  have hother (j : ι) (hj : j ≠ i) : (L.add i a).heads j = L.heads j := Function.update_of_ne hj ..
  have haddrs : addrs (nodes i ++ [(a, x)]) = addrs (nodes i) ++ [a] := by simp [addrs]
  refine h.update ?_ ?_ ?_ (fun j hj b hb => ?_) fun j hj => ⟨hother j hj, ?_⟩
  · rw [hheads]
    rcases List.eq_nil_or_concat (nodes i) with hnil | ⟨cells, ⟨b, y⟩, hcells⟩
    · -- The list was empty.
      have hseg := h.seg i
      have hlast := h.last i
      rw [hnil] at hseg hlast
      rw [hnil, show (L.heads i).first = none from hseg]
      refine ⟨rfl, none, ?_, rfl⟩
      simp only [Lists.add, show (L.heads i).last = none from hlast]
      exact hnew
    · have hseg := hfresh.seg i
      have hnodup := h.nodup i
      have hlast := h.last i
      rw [List.concat_eq_append] at hcells
      rw [hcells] at hseg hnodup hlast
      have hb : b ∉ addrs cells := by
        rw [addrs, List.map_append] at hnodup
        exact fun hb => (List.nodup_append.1 hnodup).2.2 b hb b (by simp) rfl
      have hab : b ≠ a := by
        rintro rfl
        exact ha i (by simp [hcells, addrs])
      obtain ⟨first, hfirst⟩ : ∃ first, (L.heads i).first = some first := by
        cases hfirst : (L.heads i).first with
        | none =>
          rw [show _ = none from hfirst] at hseg
          exact absurd hseg.eq_nil (by simp)
        | some first => exact ⟨first, rfl⟩
      have hmem : (L.add i a).mem =
          Linked.setNext (Linked.setNext L.mem a none) b (some a) := by
        simp only [Lists.add, hlast, addrs, List.map_append, List.map_cons, List.map_nil,
          List.getLast?_concat]
      rw [hcells, hmem, hfirst]
      rw [hfirst] at hseg
      refine seg_append.2 ⟨some a, hseg.setNext hb (some a), rfl, none, ?_, rfl⟩
      rw [Linked.setNext, List.getElem?_modify_ne _ _ hab]
      exact hnew
  · rw [hheads, haddrs, List.getLast?_concat]
  · rw [haddrs]
    exact List.nodup_append.2 ⟨h.nodup i, List.nodup_singleton a, by
      rintro b hb c hc rfl
      obtain rfl := List.mem_singleton.1 hc
      exact ha i hb⟩
  · rw [haddrs, List.mem_append, List.mem_singleton] at hb
    rcases hb with hb | rfl
    · exact h.notMem hj hb
    · exact ha j
  · have hseg := hfresh.seg j
    simp only [Lists.add]
    cases hlast : (L.heads i).last with
    | none => exact hseg
    | some last =>
      refine hseg.modify ?_ _
      have hmem : last ∈ addrs (nodes i) := List.mem_of_getLast? ((h.last i).symm.trans hlast)
      exact h.notMem hj hmem

end Lists

end RealtimeTests.Linked
