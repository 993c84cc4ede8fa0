import RealtimeTests.Linked
import RealtimeTests.Report

/-!
# The list of response times in memory

`insert_response_time` on the nodes of the list: a scan with two pointers, `itr_prev` and `itr`,
and four ways to link the new node. It refines the insertion in a list
(`LinkedList.insertResponseTime_holds`). When `malloc` fails, it leaves the list as it was unless
there is an item for the response time (`LinkedList.insertResponseTime_malloc`), so that the memory
holds a list whatever `malloc` returns (`LinkedList.exists_holds_foldlM`).
-/

namespace RealtimeTests

open Linked

/-- The list of response times in memory: the nodes and `smallest_response_time`. -/
structure LinkedList where
  mem : Memory ResponseTime
  smallest : Option ℕ
  deriving DecidableEq

/-- How the loop of `insert_response_time` ends: at the item of the response time, or at the
    insertion point, with `itr_prev` and `itr`. -/
inductive Scan
  | found (itr : ℕ)
  | insertion (itrPrev itr : Option ℕ)
  deriving DecidableEq

namespace LinkedList

/-- `new_response_time_list`. -/
def newResponseTimeList (mem : Memory ResponseTime) (malloc : Bool) (responseTime : BitVec 64) :
    Option ℕ × Memory ResponseTime :=
  if malloc then (some mem.length, alloc mem none ⟨1, responseTime⟩) else (none, mem)

/-- The loop of `insert_response_time`. -/
def scan (mem : Memory ResponseTime) (responseTime : BitVec 64) :
    ℕ → Option ℕ → Option ℕ → Option Scan
  | _, itrPrev, none => some (.insertion itrPrev none)
  | 0, _, some _ => none
  | fuel + 1, itrPrev, some itr =>
    match mem[itr]? with
    | none => none
    | some node =>
      if node.val.responseTime = responseTime then some (.found itr)
      else if responseTime < node.val.responseTime then some (.insertion itrPrev (some itr))
      else scan mem responseTime fuel (some itr) node.next

/-- What follows the loop of `insert_response_time`, at the insertion point. -/
def link (L : LinkedList) (malloc : Bool) (responseTime : BitVec 64) :
    Option ℕ → Option ℕ → LinkedList
  | none, none =>
    let (smallest, mem) := newResponseTimeList L.mem malloc responseTime
    ⟨mem, smallest⟩
  | none, some itr =>
    match newResponseTimeList L.mem malloc responseTime with
    | (none, mem) => ⟨mem, some itr⟩
    | (some smallest, mem) => ⟨setNext mem smallest (some itr), some smallest⟩
  | some itrPrev, none =>
    let (largest, mem) := newResponseTimeList L.mem malloc responseTime
    ⟨setNext mem itrPrev largest, L.smallest⟩
  | some itrPrev, some itr =>
    match newResponseTimeList L.mem malloc responseTime with
    | (none, mem) => ⟨mem, L.smallest⟩
    | (some n, mem) => ⟨setNext (setNext mem n (some itr)) itrPrev (some n), L.smallest⟩

/-- `insert_response_time`. -/
def insertResponseTime (fuel : ℕ) (malloc : Bool) (responseTime : BitVec 64) (L : LinkedList) :
    Option LinkedList :=
  let responseTime := roundResponseTime responseTime
  (scan L.mem responseTime fuel none L.smallest).map fun
    | .found itr =>
      { L with mem := setVal L.mem itr fun item => { item with jobCount := item.jobCount + 1 } }
    | .insertion itrPrev itr => L.link malloc responseTime itrPrev itr

/-- The list in memory has the items `xs`. -/
def Holds (L : LinkedList) (xs : List ResponseTime) : Prop := Linked.Holds L.mem L.smallest xs

end LinkedList

/-! ## The scan -/

variable {mem : Memory ResponseTime} {responseTime : BitVec 64}
  {cells before after : List (ℕ × ResponseTime)}

/-- The scan goes over an item, which is before the response time. -/
def Passed (responseTime : BitVec 64) (item : ResponseTime) : Prop :=
  item.responseTime ≠ responseTime ∧ ¬responseTime < item.responseTime

/-- The insertion goes over the items that the scan passes. -/
theorem insertRounded_append {xs : List ResponseTime} (hpass : ∀ x ∈ xs, Passed responseTime x)
    (ys : List ResponseTime) :
    insertRounded responseTime (xs ++ ys) = xs ++ insertRounded responseTime ys := by
  induction xs with
  | nil => rfl
  | cons x xs ih =>
    have hx := hpass x List.mem_cons_self
    rw [List.cons_append, insertRounded, if_neg hx.1, if_neg hx.2,
      ih fun y hy => hpass y (List.mem_cons_of_mem _ hy), List.cons_append]

/-- An insertion adds at most one item. -/
theorem length_insertRounded_le (responseTime : BitVec 64) (items : List ResponseTime) :
    (insertRounded responseTime items).length ≤ items.length + 1 := by
  induction items with
  | nil => rfl
  | cons itr items ih =>
    rw [insertRounded]
    split_ifs
    · exact Nat.le_succ _
    · rfl
    · exact Nat.succ_le_succ ih

/-- The last address of some nodes, or else the pointer from before them. -/
def prevOr (itrPrev : Option ℕ) (before : List (ℕ × ResponseTime)) : Option ℕ :=
  (addrs before).getLast?.or itrPrev

/-- Where the scan stops in a list. -/
inductive Scanned (responseTime : BitVec 64) (cells : List (ℕ × ResponseTime))
    (itrPrev : Option ℕ) : Scan → Prop
  | found (before : List (ℕ × ResponseTime)) (itr : ℕ) (item : ResponseTime)
      (after : List (ℕ × ResponseTime)) (hcells : cells = before ++ (itr, item) :: after)
      (hpass : ∀ x ∈ vals before, Passed responseTime x)
      (heq : item.responseTime = responseTime) :
      Scanned responseTime cells itrPrev (.found itr)
  | middle (before : List (ℕ × ResponseTime)) (itr : ℕ) (item : ResponseTime)
      (after : List (ℕ × ResponseTime)) (hcells : cells = before ++ (itr, item) :: after)
      (hpass : ∀ x ∈ vals before, Passed responseTime x)
      (hne : item.responseTime ≠ responseTime) (hlt : responseTime < item.responseTime) :
      Scanned responseTime cells itrPrev (.insertion (prevOr itrPrev before) (some itr))
  | largest (hpass : ∀ x ∈ vals cells, Passed responseTime x) :
      Scanned responseTime cells itrPrev (.insertion (prevOr itrPrev cells) none)

theorem prevOr_cons (itrPrev : Option ℕ) (itr : ℕ) (item : ResponseTime)
    (before : List (ℕ × ResponseTime)) :
    prevOr (some itr) before = prevOr itrPrev ((itr, item) :: before) := by
  simp only [prevOr, addrs, List.map_cons, List.getLast?_cons]
  cases (before.map Prod.fst).getLast? <;> rfl

/-- An item that is passed goes before those at which the scan stops. -/
theorem Scanned.cons {itrPrev : Option ℕ} {itr : ℕ} {item : ResponseTime} {out : Scan}
    (h : Scanned responseTime cells (some itr) out) (hitem : Passed responseTime item) :
    Scanned responseTime ((itr, item) :: cells) itrPrev out := by
  have hpass {before : List (ℕ × ResponseTime)} (hb : ∀ x ∈ vals before, Passed responseTime x) :
      ∀ x ∈ vals ((itr, item) :: before), Passed responseTime x :=
    List.forall_mem_cons.2 ⟨hitem, hb⟩
  cases h with
  | found before i x after hcells hb heq =>
    exact .found _ i x after (hcells ▸ rfl) (hpass hb) heq
  | middle before i x after hcells hb hne hlt =>
    rw [prevOr_cons itrPrev itr item]
    exact .middle _ i x after (hcells ▸ rfl) (hpass hb) hne hlt
  | largest hb =>
    rw [prevOr_cons itrPrev itr item]
    exact .largest (hpass hb)

/-- The scan of a list ends. -/
theorem scan_scanned (responseTime : BitVec 64) {p : Option ℕ} (h : Seg mem p cells none) {fuel : ℕ}
    (hfuel : cells.length ≤ fuel) (itrPrev : Option ℕ) :
    ∃ out, LinkedList.scan mem responseTime fuel itrPrev p = some out ∧
      Scanned responseTime cells itrPrev out := by
  induction cells generalizing p fuel itrPrev with
  | nil =>
    obtain rfl : p = none := h
    refine ⟨.insertion itrPrev none, by cases fuel <;> rfl, ?_⟩
    exact .largest fun x hx => absurd hx List.not_mem_nil
  | cons cell cells ih =>
    obtain ⟨itr, item⟩ := cell
    obtain ⟨rfl, next, hnode, h⟩ := h
    cases fuel with
    | zero => exact absurd hfuel (by simp)
    | succ fuel =>
      simp only [LinkedList.scan, hnode]
      by_cases heq : item.responseTime = responseTime
      · rw [if_pos heq]
        exact ⟨_, rfl, .found [] itr item cells rfl (fun x hx => absurd hx List.not_mem_nil) heq⟩
      by_cases hlt : responseTime < item.responseTime
      · rw [if_neg heq, if_pos hlt]
        have hstop : Scanned responseTime ((itr, item) :: cells) itrPrev
            (.insertion itrPrev (some itr)) :=
          .middle [] itr item cells rfl (fun x hx => absurd hx List.not_mem_nil) heq hlt
        exact ⟨_, rfl, hstop⟩
      · rw [if_neg heq, if_neg hlt]
        obtain ⟨out, hout, hscan⟩ := ih h (by simpa using hfuel) (some itr)
        exact ⟨out, hout, hscan.cons ⟨heq, hlt⟩⟩

/-! ## The insertion -/

namespace LinkedList

variable {L : LinkedList} {xs : List ResponseTime}

theorem prevOr_nil (itrPrev : Option ℕ) : prevOr itrPrev [] = itrPrev := rfl

theorem prevOr_concat (itrPrev : Option ℕ) (before : List (ℕ × ResponseTime)) (itr : ℕ)
    (item : ResponseTime) : prevOr itrPrev (before ++ [(itr, item)]) = some itr := by
  simp [prevOr, addrs]

/-- Where the scan stops before an item, the new one is linked before it. -/
theorem holds_link_middle {itr : ℕ} {item : ResponseTime}
    (hseg : Seg L.mem L.smallest (before ++ (itr, item) :: after) none)
    (hnodup : (addrs (before ++ (itr, item) :: after)).Nodup) :
    (L.link true responseTime (prevOr none before) (some itr)).Holds
      (vals before ++ ⟨1, responseTime⟩ :: item :: vals after) := by
  obtain ⟨q, hbefore, hafter⟩ := seg_append.1 hseg
  obtain rfl := hafter.1
  rcases List.eq_nil_or_concat before with rfl | ⟨before, ⟨itrPrev, x⟩, rfl⟩
  · -- The new item is the smallest.
    rw [prevOr_nil, link, newResponseTimeList, if_pos rfl]
    simp only [setNext_alloc]
    obtain ⟨hseg', hnodup'⟩ := hafter.push hnodup
    exact ⟨_, hseg', hnodup', rfl⟩
  · rw [List.concat_eq_append] at hnodup hbefore ⊢
    rw [prevOr_concat, link, newResponseTimeList, if_pos rfl]
    simp only [setNext_alloc]
    obtain ⟨hseg', hnodup'⟩ := hbefore.insert hafter hnodup
    exact ⟨_, hseg', hnodup', by simp [vals]⟩

/-- Where the scan passes all the items, the new one is linked after them. -/
theorem holds_link_largest (hseg : Seg L.mem L.smallest cells none)
    (hnodup : (addrs cells).Nodup) :
    (L.link true responseTime (prevOr none cells) none).Holds
      (vals cells ++ [⟨1, responseTime⟩]) := by
  rcases List.eq_nil_or_concat cells with rfl | ⟨cells, ⟨itrPrev, x⟩, rfl⟩
  · -- The new item is the only one.
    rw [prevOr_nil, link, newResponseTimeList, if_pos rfl]
    have hnil : Seg L.mem none [] none := rfl
    obtain ⟨hseg', hnodup'⟩ := hnil.push List.nodup_nil
    exact ⟨_, hseg', hnodup', rfl⟩
  · rw [List.concat_eq_append] at hnodup hseg ⊢
    rw [prevOr_concat, link, newResponseTimeList, if_pos rfl]
    have hnil : Seg L.mem none [] none := rfl
    obtain ⟨hseg', hnodup'⟩ := hseg.insert hnil (by simpa using hnodup)
    exact ⟨_, hseg', hnodup', by simp [vals]⟩

/-- `insert_response_time` in memory is the insertion in the list. -/
theorem insertResponseTime_holds (h : L.Holds xs) {fuel : ℕ} (hfuel : xs.length ≤ fuel)
    (responseTime : BitVec 64) :
    ∃ L', L.insertResponseTime fuel true responseTime = some L' ∧
      L'.Holds (RealtimeTests.insertResponseTime responseTime xs) := by
  obtain ⟨cells, hseg, hnodup, rfl⟩ := h
  obtain ⟨out, hout, hscan⟩ := scan_scanned (roundResponseTime responseTime)
    hseg (by simpa using hfuel) none
  rw [insertResponseTime, hout, RealtimeTests.insertResponseTime]
  refine ⟨_, rfl, ?_⟩
  cases hscan with
  | found before itr item after hcells hpass heq =>
    subst hcells
    have hset := hseg.setVal hnodup fun item => { item with jobCount := item.jobCount + 1 }
    refine ⟨_, hset, by simpa [addrs] using hnodup, ?_⟩
    simp only [vals, List.map_append, List.map_cons]
    rw [insertRounded_append hpass, insertRounded, if_pos heq]
  | middle before itr item after hcells hpass hne hlt =>
    subst hcells
    simp only [vals, List.map_append, List.map_cons]
    rw [insertRounded_append hpass, insertRounded, if_neg hne, if_pos hlt]
    exact holds_link_middle hseg hnodup
  | largest hpass =>
    rw [← List.append_nil (vals cells), insertRounded_append hpass]
    exact holds_link_largest hseg hnodup

/-- When `malloc` fails, the list is as it was, unless it has an item for the response time. -/
theorem insertResponseTime_malloc (h : L.Holds xs) {fuel : ℕ} (hfuel : xs.length ≤ fuel)
    (responseTime : BitVec 64) :
    ∃ L', L.insertResponseTime fuel false responseTime = some L' ∧
      (L'.Holds xs ∨ L'.Holds (RealtimeTests.insertResponseTime responseTime xs)) := by
  obtain ⟨L₁, hinsert, hholds⟩ := insertResponseTime_holds h hfuel responseTime
  obtain ⟨cells, hseg, hnodup, rfl⟩ := h
  obtain ⟨out, hout, hscan⟩ := scan_scanned (roundResponseTime responseTime)
    hseg (by simpa using hfuel) none
  rw [insertResponseTime, hout] at hinsert ⊢
  refine ⟨_, rfl, ?_⟩
  cases hscan with
  | found before itr item after hcells hpass heq =>
    -- Nothing is allocated.
    right
    cases hinsert
    exact hholds
  | middle before itr item after hcells hpass hne hlt =>
    left
    subst hcells
    rcases List.eq_nil_or_concat before with rfl | ⟨before, ⟨itrPrev, x⟩, rfl⟩
    · change Linked.Holds L.mem (some itr) _
      have hfirst : L.smallest = some itr := hseg.1
      exact ⟨_, hfirst ▸ hseg, hnodup, rfl⟩
    · rw [List.concat_eq_append, prevOr_concat]
      exact ⟨_, hseg, hnodup, by simp [vals]⟩
  | largest hpass =>
    left
    rcases List.eq_nil_or_concat cells with rfl | ⟨before, ⟨itrPrev, x⟩, rfl⟩
    · exact ⟨[], rfl, List.nodup_nil, rfl⟩
    · -- The link of the last item is set to `NULL`, which it was.
      rw [List.concat_eq_append] at hseg hnodup ⊢
      rw [prevOr_concat]
      have hitr : itrPrev ∉ addrs before := fun hitr =>
        (List.nodup_append.1 (by simpa [addrs] using hnodup :
          (addrs before ++ [itrPrev]).Nodup)).2.2 itrPrev hitr itrPrev (by simp) rfl
      exact ⟨_, hseg.setNext hitr none, hnodup, rfl⟩

/-- Whatever `malloc` returns for each of them, after insertions the memory holds a list, which
    every scan gets through. -/
theorem exists_holds_foldlM (insertions : List (Bool × BitVec 64)) {fuel : ℕ}
    (hfuel : insertions.length ≤ fuel) :
    ∃ L items, insertions.foldlM (fun L x => insertResponseTime fuel x.1 x.2 L) ⟨[], none⟩ =
      some L ∧ L.Holds items ∧ items.length ≤ insertions.length := by
  induction insertions using List.reverseRecOn with
  | nil => exact ⟨_, [], rfl, ⟨[], rfl, List.nodup_nil, rfl⟩, le_rfl⟩
  | append_singleton insertions x ih =>
    obtain ⟨malloc, responseTime⟩ := x
    rw [List.length_append, List.length_singleton] at hfuel ⊢
    obtain ⟨L, items, hL, hholds, hlen⟩ := ih (by omega)
    have hlen' : (RealtimeTests.insertResponseTime responseTime items).length ≤
        items.length + 1 := length_insertRounded_le _ items
    have hscan : items.length ≤ fuel := hlen.trans (by omega)
    simp only [List.foldlM_append, hL, List.foldlM_cons, List.foldlM_nil, Option.bind_eq_bind,
      Option.bind_some, Option.pure_def]
    cases malloc with
    | true =>
      obtain ⟨L', hL', hholds'⟩ := insertResponseTime_holds hholds hscan responseTime
      exact ⟨L', _, by rw [hL', Option.bind_some], hholds', by omega⟩
    | false =>
      obtain ⟨L', hL', hholds' | hholds'⟩ :=
        insertResponseTime_malloc hholds hscan responseTime
      · exact ⟨L', _, by rw [hL', Option.bind_some], hholds', by omega⟩
      · exact ⟨L', _, by rw [hL', Option.bind_some], hholds', by omega⟩

end LinkedList

end RealtimeTests
