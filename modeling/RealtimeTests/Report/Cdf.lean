import Mathlib.Data.BitVec
import RealtimeTests.Empirical
import RealtimeTests.Report.List

/-!
# The CDF of the response times

`print_gnuplot_cdf` and `print_matlab_cdf`, of the list that `insert_response_time` has made.
The values and the ratios printed are those of the empirical distribution function of the
response times, rounded to the microsecond (`responseTimeCdf_exact`): the list of response times
is their tally (`tally_insertResponseTimes`), and the cumulative counts are its running sums.

The ratios are exact.
-/

namespace RealtimeTests

open Linked Empirical

variable {h : Host}

/-! ## Printing -/

/-- `enum cdf_format`. -/
inductive CdfFormat
  | noCdf
  | gnuplot
  | matlab
  deriving DecidableEq

/-- What is printed: a line for each response time, or the two vectors of a plot. -/
inductive CdfReport
  | lines (points : List (ℕ × ℚ))
  | plot (x : List ℕ) (y : List ℚ)
  deriving DecidableEq

namespace LinkedList

/-- `print_gnuplot_cdf`. -/
def printGnuplotCdf (fuel : ℕ) (L : LinkedList) (totalJobCount : BitVec 32) : Option CdfReport := do
  let (_, points) ← forEach L.mem
    (fun ((cummulativeJobCount, points) : BitVec 32 × List (ℕ × ℚ)) itr =>
      let cummulativeJobCount := cummulativeJobCount + itr.jobCount
      (cummulativeJobCount,
        points ++
          [(itr.responseTime.toNat, (cummulativeJobCount.toNat / totalJobCount.toNat : ℚ))]))
    fuel L.smallest (0, [])
  return .lines points

/-- `print_matlab_cdf`: the list is gone through for each of the vectors. -/
def printMatlabCdf (fuel : ℕ) (L : LinkedList) (totalJobCount : BitVec 32) : Option CdfReport := do
  let x ← forEach L.mem (fun x itr => x ++ [itr.responseTime.toNat]) fuel L.smallest []
  let (_, y) ← forEach L.mem
    (fun ((cummulativeJobCount, y) : BitVec 32 × List ℚ) itr =>
      let cummulativeJobCount := cummulativeJobCount + itr.jobCount
      (cummulativeJobCount, y ++ [(cummulativeJobCount.toNat / totalJobCount.toNat : ℚ)]))
    fuel L.smallest (0, [])
  return .plot x y

/-- `print_response_time_cdf`, which prints nothing when there are no jobs. -/
def printResponseTimeCdf (fuel : ℕ) (L : LinkedList) (totalJobCount : BitVec 32) :
    CdfFormat → Option (Option CdfReport)
  | .noCdf => some none
  | .gnuplot =>
    if totalJobCount = 0 then some none else some <$> L.printGnuplotCdf fuel totalJobCount
  | .matlab =>
    if totalJobCount = 0 then some none else some <$> L.printMatlabCdf fuel totalJobCount

/-- `insert_response_time` for each response time in turn, from the empty list. -/
def insertResponseTimes (fuel : ℕ) (responseTimes : List (BitVec 64)) : Option LinkedList :=
  responseTimes.foldlM (fun L responseTime => L.insertResponseTime fuel true responseTime)
    ⟨[], none⟩

end LinkedList

/-- The nearest number of microseconds, halves being rounded up. -/
def nearestUs (ns : ℕ) : ℕ := (ns + 500) / 1000

/-- The response times that the CDF is of. -/
def roundedTimes (responseTimes : List (BitVec 64)) : List ℕ :=
  responseTimes.map fun responseTime => nearestUs responseTime.toNat

/-! ## The list is the tally -/

theorem toNat_roundResponseTime (responseTime : BitVec 64) :
    (roundResponseTime responseTime).toNat = nearestUs responseTime.toNat := by
  have hlt := responseTime.isLt
  rw [roundResponseTime, nearestUs]
  split_ifs with hround
  · have hmod : 500 ≤ responseTime.toNat % 1000 := by simpa using BitVec.le_def.1 hround
    have hdiv : (responseTime / 1000).toNat = responseTime.toNat / 1000 := by simp
    have hone : (1 : BitVec 64).toNat = 1 := rfl
    rw [BitVec.toNat_add, hdiv, hone]
    omega
  · have hmod : ¬500 ≤ responseTime.toNat % 1000 := fun hmod =>
      hround (BitVec.le_def.2 (by simpa using hmod))
    have hdiv : (responseTime / 1000).toNat = responseTime.toNat / 1000 := by simp
    rw [hdiv]
    omega

/-- An item, as a value of a tally with the number of its jobs. -/
def ResponseTime.entry (itr : ResponseTime) : ℕ × BitVec 32 :=
  (itr.responseTime.toNat, itr.jobCount)

/-- The insertion counts a value in the tally. -/
theorem entry_insertRounded (responseTime : BitVec 64) (items : List ResponseTime) :
    (insertRounded responseTime items).map ResponseTime.entry =
      insertCount responseTime.toNat (items.map ResponseTime.entry) := by
  induction items with
  | nil => rfl
  | cons itr items ih =>
    have heq : itr.entry.1 = responseTime.toNat ↔ itr.responseTime = responseTime :=
      BitVec.toNat_inj
    have hlt : responseTime.toNat < itr.entry.1 ↔ responseTime < itr.responseTime :=
      BitVec.lt_def.symm
    rw [List.map_cons, insertRounded, insertCount]
    simp only [heq, hlt]
    split_ifs
    · rfl
    · rfl
    · rw [List.map_cons, ih]

/-- The list that is made of response times. -/
def insertedTimes (responseTimes : List (BitVec 64)) : List ResponseTime :=
  responseTimes.foldl (fun items responseTime => insertResponseTime responseTime items) []

theorem insertedTimes_concat (responseTimes : List (BitVec 64)) (responseTime : BitVec 64) :
    insertedTimes (responseTimes ++ [responseTime]) =
      insertResponseTime responseTime (insertedTimes responseTimes) :=
  List.foldl_concat ..

/-- The list of response times is their tally. -/
theorem tally_insertedTimes (responseTimes : List (BitVec 64)) :
    Tally ((insertedTimes responseTimes).map ResponseTime.entry) (roundedTimes responseTimes) := by
  induction responseTimes using List.reverseRecOn with
  | nil => exact tally_nil
  | append_singleton responseTimes responseTime ih =>
    have hlast : roundedTimes (responseTimes ++ [responseTime]) =
        roundedTimes responseTimes ++ [nearestUs responseTime.toNat] := List.map_append
    rw [insertedTimes_concat, insertResponseTime, hlast, entry_insertRounded,
      toNat_roundResponseTime]
    exact (ih.insertCount _).perm (List.perm_append_singleton _ _).symm

theorem length_insertedTimes_le (responseTimes : List (BitVec 64)) :
    (insertedTimes responseTimes).length ≤ responseTimes.length := by
  induction responseTimes using List.reverseRecOn with
  | nil => rfl
  | append_singleton responseTimes responseTime ih =>
    rw [insertedTimes_concat, List.length_append]
    exact (length_insertRounded_le _ _).trans (Nat.succ_le_succ ih)

/-- In memory, the list has the items that the insertions make. -/
theorem insertResponseTimes_holds (responseTimes : List (BitVec 64)) {fuel : ℕ}
    (hfuel : responseTimes.length ≤ fuel) :
    ∃ L, LinkedList.insertResponseTimes fuel responseTimes = some L ∧
      L.Holds (insertedTimes responseTimes) := by
  induction responseTimes using List.reverseRecOn with
  | nil => exact ⟨⟨[], none⟩, rfl, holds_nil _⟩
  | append_singleton responseTimes responseTime ih =>
    rw [List.length_append, List.length_singleton] at hfuel
    obtain ⟨L, hL, hholds⟩ := ih (by omega)
    have hlen := length_insertedTimes_le responseTimes
    obtain ⟨L', hL', hholds'⟩ :=
      LinkedList.insertResponseTime_holds hholds (hlen.trans (by omega : _ ≤ fuel)) responseTime
    refine ⟨L', ?_, insertedTimes_concat _ _ ▸ hholds'⟩
    rw [LinkedList.insertResponseTimes] at hL ⊢
    rw [List.foldlM_append, hL]
    simpa using hL'

/-! ## What is printed -/

/-- The loop of `print_gnuplot_cdf` prints the running sums of the counts. -/
theorem foldl_points (totalJobCount : BitVec 32) (items : List ResponseTime) (sum : BitVec 32)
    (points : List (ℕ × ℚ)) :
    (items.foldl
      (fun ((cummulativeJobCount, points) : BitVec 32 × List (ℕ × ℚ)) itr =>
        let cummulativeJobCount := cummulativeJobCount + itr.jobCount
        (cummulativeJobCount,
          points ++
            [(itr.responseTime.toNat, (cummulativeJobCount.toNat / totalJobCount.toNat : ℚ))]))
      (sum, points)).2 =
    points ++ (runningSums sum (items.map ResponseTime.entry)).map fun entry =>
      (entry.1, (entry.2.toNat / totalJobCount.toNat : ℚ)) := by
  induction items generalizing sum points with
  | nil => exact (List.append_nil _).symm
  | cons itr items ih =>
    rw [List.foldl_cons, ih, List.append_assoc]
    rfl

/-- The loops of `print_matlab_cdf` print the same. -/
theorem foldl_times (items : List ResponseTime) (x : List ℕ) :
    items.foldl (fun x itr => x ++ [itr.responseTime.toNat]) x =
      x ++ (items.map ResponseTime.entry).map Prod.fst := by
  induction items generalizing x with
  | nil => exact (List.append_nil _).symm
  | cons itr items ih =>
    rw [List.foldl_cons, ih, List.append_assoc]
    rfl

theorem foldl_ratios (totalJobCount : BitVec 32) (items : List ResponseTime) (sum : BitVec 32)
    (y : List ℚ) :
    (items.foldl
      (fun ((cummulativeJobCount, y) : BitVec 32 × List ℚ) itr =>
        let cummulativeJobCount := cummulativeJobCount + itr.jobCount
        (cummulativeJobCount, y ++ [(cummulativeJobCount.toNat / totalJobCount.toNat : ℚ)]))
      (sum, y)).2 =
    y ++ (runningSums sum (items.map ResponseTime.entry)).map fun entry =>
      (entry.2.toNat / totalJobCount.toNat : ℚ) := by
  induction items generalizing sum y with
  | nil => exact (List.append_nil _).symm
  | cons itr items ih =>
    rw [List.foldl_cons, ih, List.append_assoc]
    rfl

/-- The number of the response times, as it is printed with. -/
abbrev jobCountOf (responseTimes : List (BitVec 64)) : BitVec 32 := .ofNat 32 responseTimes.length

/-- A count of response times is not reduced, as there are fewer than `2 ^ 32` of them. -/
theorem toNat_countP {responseTimes : List (BitVec 64)} (hlen : responseTimes.length < 2 ^ 32)
    (p : ℕ → Bool) :
    (((roundedTimes responseTimes).countP p : ℕ) : BitVec 32).toNat =
      (roundedTimes responseTimes).countP p := by
  have hle : (roundedTimes responseTimes).countP p ≤ responseTimes.length :=
    List.countP_le_length.trans (List.length_map _).le
  rw [BitVec.natCast_eq_ofNat, BitVec.toNat_ofNat, Nat.mod_eq_of_lt (hle.trans_lt hlen)]

/-- The running sums of the list, as ratios, are the empirical distribution function. -/
theorem points_eq_cdf {responseTimes : List (BitVec 64)} (hlen : responseTimes.length < 2 ^ 32) :
    ((runningSums 0 ((insertedTimes responseTimes).map ResponseTime.entry)).map fun entry =>
        (entry.1, (entry.2.toNat / (jobCountOf responseTimes).toNat : ℚ))) =
      cdf (roundedTimes responseTimes) := by
  have hsums := (tally_insertedTimes responseTimes).runningSums
  have htotal : (jobCountOf responseTimes).toNat = (roundedTimes responseTimes).length := by
    rw [BitVec.toNat_ofNat, Nat.mod_eq_of_lt hlen, roundedTimes, List.length_map]
  rw [hsums, List.map_map, cdf, htotal]
  refine List.map_congr_left fun x _ => ?_
  simp only [Function.comp_apply, toNat_countP hlen]

/-- What is printed of a list in memory. -/
theorem printCdf_holds {responseTimes : List (BitVec 64)} (hlen : responseTimes.length < 2 ^ 32)
    {L : LinkedList} (hL : L.Holds (insertedTimes responseTimes)) {fuel : ℕ}
    (hfuel : responseTimes.length ≤ fuel) :
    L.printGnuplotCdf fuel (jobCountOf responseTimes) =
        some (.lines (cdf (roundedTimes responseTimes))) ∧
      L.printMatlabCdf fuel (jobCountOf responseTimes) =
        some (.plot ((cdf (roundedTimes responseTimes)).map Prod.fst)
          ((cdf (roundedTimes responseTimes)).map Prod.snd)) := by
  have hfuel' := (length_insertedTimes_le responseTimes).trans hfuel
  have hpoints := points_eq_cdf hlen
  have hvalues : ((insertedTimes responseTimes).map ResponseTime.entry).map Prod.fst =
      (cdf (roundedTimes responseTimes)).map Prod.fst := by
    have hsums := map_fst_runningSums 0 ((insertedTimes responseTimes).map ResponseTime.entry)
    rw [← hsums, ← hpoints, List.map_map]
    rfl
  have hratios : ((runningSums 0 ((insertedTimes responseTimes).map ResponseTime.entry)).map
        fun entry => (entry.2.toNat / (jobCountOf responseTimes).toNat : ℚ)) =
      (cdf (roundedTimes responseTimes)).map Prod.snd := by
    rw [← hpoints, List.map_map]
    rfl
  constructor
  · rw [LinkedList.printGnuplotCdf, Linked.Holds.forEach hL _ hfuel', Option.bind_eq_bind,
      Option.bind_some, ← hpoints]
    exact congrArg (some ∘ CdfReport.lines) (foldl_points _ _ 0 [])
  · rw [LinkedList.printMatlabCdf, Linked.Holds.forEach hL _ hfuel',
      Linked.Holds.forEach hL _ hfuel', Option.bind_eq_bind, Option.bind_some, Option.bind_eq_bind,
      Option.bind_some, ← hvalues, ← hratios]
    exact congrArg₂ (fun x y => some (CdfReport.plot x y)) (foldl_times _ [])
      (foldl_ratios _ _ 0 [])

/-! ## The CDF -/

/-- The points of the CDF: each rounded response time once, in increasing order, with the ratio of
    the jobs whose rounded response time is at most it. -/
structure ResponseTimeCdf (responseTimes : List (BitVec 64)) (points : List (ℕ × ℚ)) : Prop where
  mem_iff : ∀ rho, rho ∈ points.map Prod.fst ↔
    ∃ responseTime ∈ responseTimes, nearestUs responseTime.toNat = rho
  increasing : (points.map Prod.fst).Pairwise (· < ·)
  ratio : ∀ point ∈ points, point.2 =
    (responseTimes.countP fun responseTime => nearestUs responseTime.toNat ≤ point.1 : ℕ) /
      responseTimes.length
  ratio_increasing : (points.map Prod.snd).Pairwise (· < ·)
  ratio_last : (points.map Prod.snd).getLast? = some 1

theorem responseTimeCdf_cdf {responseTimes : List (BitVec 64)} (hne : responseTimes ≠ []) :
    ResponseTimeCdf responseTimes (cdf (roundedTimes responseTimes)) where
  mem_iff rho := by
    rw [map_fst_cdf, mem_distinct, roundedTimes, List.mem_map]
  increasing := by
    rw [map_fst_cdf]
    exact distinct_pairwise _
  ratio point hpoint := by
    obtain ⟨rho, -, rfl⟩ := List.mem_map.1 hpoint
    rw [roundedTimes, List.countP_map, List.length_map]
    rfl
  ratio_increasing := List.pairwise_map.2 ((cdf_pairwise _).imp fun h => h.2)
  ratio_last := by
    have hne' : roundedTimes responseTimes ≠ [] := by rwa [roundedTimes, ne_eq, List.map_eq_nil_iff]
    obtain ⟨rho, hrho⟩ := cdf_getLast? hne'
    rw [List.getLast?_map, hrho]
    rfl

/-- The response times of the list are strictly increasing. -/
theorem insertedTimes_pairwise (responseTimes : List (BitVec 64)) :
    (insertedTimes responseTimes).Pairwise fun x y => x.responseTime < y.responseTime := by
  have hsort := (tally_insertedTimes responseTimes).sorted
  rw [List.map_map, List.pairwise_map] at hsort
  exact hsort.imp fun hlt => BitVec.lt_def.2 hlt

/-- The job counts of the list add up to the number of jobs. -/
theorem sum_jobCount_insertedTimes {responseTimes : List (BitVec 64)}
    (hlen : responseTimes.length < 2 ^ 32) :
    ((insertedTimes responseTimes).map fun itr => itr.jobCount.toNat).sum =
      responseTimes.length := by
  have hentries := (tally_insertedTimes responseTimes).eq_map
  have hcounts : (insertedTimes responseTimes).map (fun itr => itr.jobCount.toNat) =
      (distinct (roundedTimes responseTimes)).map fun x =>
        (roundedTimes responseTimes).count x := by
    have hmap := congrArg (List.map fun entry : ℕ × BitVec 32 => entry.2.toNat) hentries
    rw [List.map_map, List.map_map] at hmap
    refine hmap.trans (List.map_congr_left fun x _ => ?_)
    exact toNat_countP hlen (· == x)
  rw [hcounts, sum_count_distinct, roundedTimes, List.length_map]

/-- The order of the response times does not matter for the list. -/
theorem insertedTimes_perm {responseTimes responseTimes' : List (BitVec 64)}
    (hp : responseTimes.Perm responseTimes') :
    insertedTimes responseTimes = insertedTimes responseTimes' := by
  have htally := (tally_insertedTimes responseTimes').perm (hp.symm.map _)
  have hentries := (tally_insertedTimes responseTimes).eq_map.trans htally.eq_map.symm
  refine List.map_injective_iff.2 (fun x y hxy => ?_) hentries
  have h1 : x.responseTime = y.responseTime := BitVec.eq_of_toNat_eq (congrArg Prod.fst hxy)
  have h2 : x.jobCount = y.jobCount := congrArg Prod.snd hxy
  cases x
  cases y
  subst h1 h2
  rfl

/-- The CDF printed is the empirical distribution of the response times, the same in both formats,
    and for any order of the jobs. -/
theorem responseTimeCdf_exact {responseTimes : List (BitVec 64)} (hne : responseTimes ≠ [])
    (hlen : responseTimes.length < 2 ^ 32) {fuel : ℕ} (hfuel : responseTimes.length ≤ fuel) :
    ∃ items points, ResponseTimeCdf responseTimes points ∧
      items.Pairwise (fun x y => x.responseTime < y.responseTime) ∧
      (items.map fun itr => itr.jobCount.toNat).sum = responseTimes.length ∧
      ∀ responseTimes' : List (BitVec 64), responseTimes'.Perm responseTimes →
        ∃ L, LinkedList.insertResponseTimes fuel responseTimes' = some L ∧ L.Holds items ∧
          L.printGnuplotCdf fuel (jobCountOf responseTimes') = some (.lines points) ∧
          L.printMatlabCdf fuel (jobCountOf responseTimes') =
            some (.plot (points.map Prod.fst) (points.map Prod.snd)) := by
  refine ⟨insertedTimes responseTimes, cdf (roundedTimes responseTimes), responseTimeCdf_cdf hne,
    insertedTimes_pairwise responseTimes, sum_jobCount_insertedTimes hlen, fun times hp => ?_⟩
  rw [← hp.length_eq] at hlen hfuel
  obtain ⟨L, hL, hholds⟩ := insertResponseTimes_holds times hfuel
  have hprint := printCdf_holds hlen hholds hfuel
  have hcdf : cdf (roundedTimes times) = cdf (roundedTimes responseTimes) := cdf_perm (hp.map _)
  rw [hcdf] at hprint
  exact ⟨L, hL, insertedTimes_perm hp ▸ hholds, hprint.1, hprint.2⟩

/-- The CDF of three jobs. -/
theorem responseTimeCdf_exact_three :
    ∃ items points, ResponseTimeCdf [1499, 2500, 1000] points ∧
      items.Pairwise (fun x y => x.responseTime < y.responseTime) ∧
      (items.map fun itr => itr.jobCount.toNat).sum = 3 ∧
      ∀ responseTimes' : List (BitVec 64), responseTimes'.Perm [1499, 2500, 1000] →
        ∃ L, LinkedList.insertResponseTimes 3 responseTimes' = some L ∧ L.Holds items ∧
          L.printGnuplotCdf 3 (jobCountOf responseTimes') = some (.lines points) ∧
          L.printMatlabCdf 3 (jobCountOf responseTimes') =
            some (.plot (points.map Prod.fst) (points.map Prod.snd)) :=
  responseTimeCdf_exact (List.cons_ne_nil _ _) (by decide) le_rfl

/-! ## The CDF of a log -/

/-- The response times handed to the list for records, in ns. -/
def reportedTimes : List (JobStatistics h) → TaskStats h → List (BitVec 64)
  | [], _ => []
  | stats :: records, prms =>
    (jobRow stats prms).responseTimeNs :: reportedTimes records (printJobStats stats prms).2

theorem length_reportedTimes (records : List (JobStatistics h)) (prms : TaskStats h) :
    (reportedTimes records prms).length = records.length := by
  induction records generalizing prms with
  | nil => rfl
  | cons stats records ih => exact congrArg (· + 1) (ih _)

/-- The list and the number of jobs after records. -/
theorem responseTimes_feedJobs (records : List (JobStatistics h)) (prms : TaskStats h) :
    (feedJobs printJobStats records prms).2.2.responseTimes =
        (reportedTimes records prms).foldl
          (fun items responseTime => insertResponseTime responseTime items) prms.responseTimes ∧
      (feedJobs printJobStats records prms).2.2.totalJobCount =
        prms.totalJobCount + .ofNat _ records.length := by
  induction records generalizing prms with
  | nil => exact ⟨rfl, (BitVec.add_zero _).symm⟩
  | cons stats records ih =>
    have haccept : ¬(printJobStats stats prms).1 ≠ 0 := not_not.2 rfl
    rw [feedJobs, if_neg haccept]
    refine ⟨(ih _).1, (ih _).2.trans ?_⟩
    change prms.totalJobCount + 1 + BitVec.ofNat _ records.length = _
    rw [List.length_cons, Nat.add_comm, BitVec.ofNat_add, BitVec.add_assoc]
    rfl

/-- What the program prints for the records of a log, of the list of their response times in
    memory: their empirical distribution. -/
theorem printResponseTimeCdf_feedJobs {records : List (JobStatistics h)} (hne : records ≠ [])
    (hlen : records.length < 2 ^ 32) {prms : TaskStats h} (hlist : prms.responseTimes = [])
    (hcount : prms.totalJobCount = 0) {L : LinkedList}
    (hL : L.Holds (feedJobs printJobStats records prms).2.2.responseTimes) {fuel : ℕ}
    (hfuel : records.length ≤ fuel) :
    L.printResponseTimeCdf fuel
        ((feedJobs printJobStats records prms).2.2.totalJobCount.setWidth 32) .gnuplot =
      some (some (.lines (cdf (roundedTimes (reportedTimes records prms))))) := by
  obtain ⟨htimes, htotal⟩ := responseTimes_feedJobs records prms
  rw [htimes, hlist] at hL
  have hlen' := length_reportedTimes records prms
  have htotal' : (feedJobs printJobStats records prms).2.2.totalJobCount.setWidth 32 =
      jobCountOf (reportedTimes records prms) := by
    rw [htotal, hcount, zero_add, BitVec.setWidth_ofNat_of_le h.le_longBits, jobCountOf,
      hlen']
  have hpos : jobCountOf (reportedTimes records prms) ≠ 0 := by
    intro hzero
    have hnat := congrArg BitVec.toNat hzero
    rw [jobCountOf, hlen', BitVec.toNat_ofNat, Nat.mod_eq_of_lt hlen] at hnat
    exact hne (List.length_eq_zero_iff.1 hnat)
  rw [htotal', LinkedList.printResponseTimeCdf, if_neg hpos,
    (printCdf_holds (hlen' ▸ hlen) hL (hlen' ▸ hfuel)).1]
  rfl

end RealtimeTests
