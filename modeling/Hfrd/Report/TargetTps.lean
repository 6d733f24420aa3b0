/-
  Hfrd.Report.TargetTps

  The target rates of a report: the loop over the tests of the plan in
  backend/jenkins/pipelines/ansible/utils/report_gen.py, against the groups in
  which runtest.yml runs the tests.

  Both cut the list of tests after the tests that wait for their group.  The
  playbook takes a test without `waitUntilFinish` for one that waits; the
  script raises a `KeyError` there, after it has added the rate of the test,
  and goes on to the next test with the group still open.  An `intervalNum` that
  cannot be read raises before the rate is added, so the test is lost.

  Numbers are rationals: rounding is left out.
-/

import Hfrd.Go.Strconv
import Hfrd.Lib.SplitAfter
import Hfrd.Report.AverageMetrics
import Mathlib.Algebra.Order.BigOperators.Group.List

namespace Hfrd.Report

open Hfrd.Go Hfrd.Lib

/-! ## The tests of a plan -/

/-- What the report generator reads of a test. -/
structure Test where
  operation : String
  waitUntilFinish : Option Bool
  loadSpread : Option ℚ
  iterationInterval : Option String
  intervalNum : Option String
deriving DecidableEq

/-! ## The script -/

/-- The variables of the loop. -/
structure Vars where
  inter_s : Int
  inter_e : Int
  targetTPSs : List ℚ
  currentTargetTPS : ℚ
deriving DecidableEq

/-- The variables after some statements, and what they raised. -/
abbrev Outcome := Vars × Option PyError

/-- Statements after others: not run if these raised. -/
def Outcome.andThen (r : Outcome) (f : Vars → Outcome) : Outcome :=
  match r.2 with
  | none => f r.1
  | some e => (r.1, some e)

@[simp] theorem Outcome.andThen_none (v : Vars) (f : Vars → Outcome) :
    Outcome.andThen (v, none) f = f v := rfl

/-- White space for `int` and `float`. -/
def isSpace (c : Char) : Bool := c == ' ' || (9 ≤ c.toNat && c.toNat ≤ 13)

/-- `str.strip` -/
def strip (cs : List Char) : List Char := (cs.dropWhile isSpace).rdropWhile isSpace

/-- `int(text)`. -/
def int (text : List Char) : Except PyError Int :=
  match signed? (strip text) with
  | some (true, n) => .ok (-n)
  | some (false, n) => .ok n
  | none => .error .ValueError

/-- Digits with a decimal point, a digit at least. -/
def mantissa? (cs : List Char) : Option ℚ :=
  let whole := cs.takeWhile (· ≠ '.')
  match cs.dropWhile (· ≠ '.') with
  | [] => if whole = [] then none else (digits? 0 whole).map fun n => (n : ℚ)
  | _ :: fraction =>
      if whole = [] ∧ fraction = [] then none
      else (digits? 0 (whole ++ fraction)).map fun n => (n : ℚ) / (10 ^ fraction.length : Nat)

/-- A decimal literal without a sign, with an exponent or not. -/
def unsigned? (cs : List Char) : Option ℚ :=
  let mantissa := cs.takeWhile fun c => c ≠ 'e' ∧ c ≠ 'E'
  match cs.dropWhile fun c => c ≠ 'e' ∧ c ≠ 'E' with
  | [] => mantissa? mantissa
  | _ :: exponent =>
      match mantissa? mantissa, signed? exponent with
      | some m, some (true, k) => some (m / (10 ^ k : Nat))
      | some m, some (false, k) => some (m * (10 ^ k : Nat))
      | _, _ => none

/-- `float(text)`; the texts of infinities and of "not a number" are left out. -/
def float (text : List Char) : Except PyError ℚ :=
  let value := match strip text with
    | '-' :: cs => (unsigned? cs).map fun q => -q
    | '+' :: cs => unsigned? cs
    | cs => unsigned? cs
  match value with
  | some q => .ok q
  | none => .error .ValueError

/-- `int(part)` of a part that may be missing. -/
def intPart (part : Option (List Char)) : Except PyError Int :=
  match part with
  | some text => int text
  | none => .error .IndexError

/-- The window of the averages. -/
def readWindow (test : Test) (v : Vars) : Outcome :=
  match test.intervalNum with
  | none => ({ v with inter_s := 0, inter_e := 0 }, none)
  | some iterationCount =>
      let parts := Lib.split ['-'] iterationCount.toList
      match intPart parts[0]? with
      | .error e => (v, some e)
      | .ok s =>
          match intPart parts[1]? with
          -- `inter_s` is set already
          | .error e => ({ v with inter_s := s }, some e)
          | .ok e => ({ v with inter_s := s, inter_e := e }, none)

/-- The rate of an invoke is added to the group. -/
def addTarget (test : Test) (v : Vars) : Outcome :=
  let iterationInterval := (test.iterationInterval.getD "1s").toList
  if iterationInterval.getLast? = some 'r' ∨ iterationInterval.getLast? = some 's' then
    match float iterationInterval.dropLast with
    | .error e => (v, some e)
    | .ok interval =>
        let loadSpread := test.loadSpread.getD 1
        if interval > 0 then
          ({ v with currentTargetTPS := v.currentTargetTPS + loadSpread / interval }, none)
        else (v, none)
  else (v, none)

/-- The end of a group. -/
def closeGroup (test : Test) (last : Bool) (v : Vars) : Outcome :=
  match test.waitUntilFinish with
  -- `test['waitUntilFinish']`
  | none => (v, some (.KeyError "waitUntilFinish"))
  | some waitUntilFinish =>
      if waitUntilFinish ≠ false ∨ last = true then
        if v.currentTargetTPS > 0 then
          ({ v with targetTPSs := v.targetTPSs ++ [v.currentTargetTPS], currentTargetTPS := 0 },
            none)
        else (v, none)
      else (v, none)

/-- `for idx, test in enumerate(ty['tests'])`: what a turn raises is printed. -/
def reportTest (len : Nat) (v : Vars) (test : Test × Nat) : Vars :=
  let added : Outcome :=
    if test.1.operation = "CHAINCODE_INVOKE" then
      Outcome.andThen (readWindow test.1 v) (addTarget test.1)
    else (v, none)
  -- `except Exception as e`: printed; the variables stay as they are
  (Outcome.andThen added (closeGroup test.1 (test.2 == len - 1))).1

/-- The variables after the loop; the windows of the averages are read here. -/
def reportTests (tests : List Test) : Vars :=
  tests.zipIdx.foldl (reportTest tests.length) ⟨0, 0, [], 0⟩

/-- The rates of the report, group by group. -/
def targetTPSs (tests : List Test) : List ℚ := (reportTests tests).targetTPSs

/-! ## The playbook -/

/-- The jobs that run, and the groups that were waited for. -/
structure Jobs where
  runningjobs : List Test
  waited : List (List Test)

/-- `testitem.waitUntilFinish | default(true)` -/
def waits (testitem : Test) : Bool := testitem.waitUntilFinish.getD true

/-- runtest.yml, for one item of the list of tests. -/
def runtest (jobs : Jobs) (testitem : Test) : Jobs :=
  let runningjobs := jobs.runningjobs ++ [testitem]
  if waits testitem = true then ⟨[], jobs.waited ++ [runningjobs]⟩
  else { jobs with runningjobs := runningjobs }

/-- The groups of tests that run in parallel, the last of which may stay open. -/
def parallelGroups (tests : List Test) : List (List Test) :=
  let jobs := tests.foldl runtest ⟨[], []⟩
  jobs.waited ++ if jobs.runningjobs = [] then [] else [jobs.runningjobs]

/-- The groups are the list of tests, cut after the tests that wait. -/
theorem parallelGroups_eq (tests : List Test) :
    parallelGroups tests = splitAfter waits [] tests := by
  have hrun : ∀ (tests : List Test) (jobs : Jobs),
      (tests.foldl runtest jobs).waited ++
          (if (tests.foldl runtest jobs).runningjobs = [] then []
            else [(tests.foldl runtest jobs).runningjobs]) =
        jobs.waited ++ splitAfter waits jobs.runningjobs tests := by
    intro tests
    induction tests with
    | nil =>
        intro jobs
        by_cases hnil : jobs.runningjobs = []
        · simp [hnil]
        · simp [hnil, splitAfter_pending waits hnil]
    | cons test tests ih =>
        intro jobs
        rw [List.foldl_cons, ih, splitAfter_cons]
        by_cases hw : waits test = true
        · simp [runtest, hw]
        · simp [runtest, hw]
  exact hrun tests ⟨[], []⟩

/-! ## Rates -/

/-- A numeral with the suffix `s` or `r`. -/
def IsInterval (text : String) : Prop :=
  ∃ numeral suffix, text.toList = numeral ++ [suffix] ∧ (suffix = 's' ∨ suffix = 'r') ∧
    ∃ interval, float numeral = .ok interval ∧ 0 ≤ interval

/-- The spread and the interval of a test are as documented. -/
structure Test.WellFormed (test : Test) : Prop where
  loadSpread : ∀ n ∈ test.loadSpread, 0 < n
  iterationInterval : ∀ text ∈ test.iterationInterval, IsInterval text

/-- The value of the numeral; an absent interval is `1s`. -/
def Test.interval (test : Test) : ℚ :=
  match test.iterationInterval with
  | none => 1
  | some text =>
      match float text.toList.dropLast with
      | .ok interval => interval
      | .error _ => 0

/-- What a test adds to the rate of its group. -/
def Test.rate (test : Test) : ℚ :=
  if test.operation = "CHAINCODE_INVOKE" ∧ test.interval ≠ 0 then
    test.loadSpread.getD 1 / test.interval
  else 0

/-- The rate of a group. -/
def groupRate (group : List Test) : ℚ := (group.map Test.rate).sum

/-- What is listed for a group: its rate, if it is positive. -/
def listed (rate : ℚ) : List ℚ := if 0 < rate then [rate] else []

theorem length_listed_le (rate : ℚ) : (listed rate).length ≤ 1 := by
  unfold listed
  split
  · exact le_refl 1
  · exact Nat.zero_le 1

theorem sum_listed_le {rate : ℚ} (h : 0 ≤ rate) : (listed rate).sum ≤ rate := by
  unfold listed
  split
  · simp
  · exact h

namespace Test.WellFormed

variable {test : Test}

theorem loadSpread_pos (h : test.WellFormed) : 0 < test.loadSpread.getD 1 := by
  cases hl : test.loadSpread with
  | none => exact one_pos
  | some n => exact h.loadSpread n hl

/-- The text of the interval has a suffix, and what stands before it is read as
    the interval of the test. -/
theorem suffix (h : test.WellFormed) :
    ∃ numeral suffix, (test.iterationInterval.getD "1s").toList = numeral ++ [suffix] ∧
      (suffix = 's' ∨ suffix = 'r') ∧ float numeral = .ok test.interval ∧ 0 ≤ test.interval := by
  unfold Test.interval
  cases hi : test.iterationInterval with
  | none => exact ⟨['1'], 's', rfl, Or.inl rfl, by decide +kernel, zero_le_one⟩
  | some text =>
      obtain ⟨numeral, suffix, htext, hs, interval, hfloat, hpos⟩ := h.iterationInterval text hi
      refine ⟨numeral, suffix, htext, hs, ?_⟩
      have hdrop : text.toList.dropLast = numeral := by rw [htext, List.dropLast_concat]
      simp only [hdrop, hfloat, true_and]
      exact hpos

theorem interval_nonneg (h : test.WellFormed) : 0 ≤ test.interval := by
  obtain ⟨_, _, _, _, _, hpos⟩ := h.suffix
  exact hpos

theorem rate_nonneg (h : test.WellFormed) : 0 ≤ test.rate := by
  unfold Test.rate
  split
  · exact div_nonneg (le_of_lt h.loadSpread_pos) h.interval_nonneg
  · exact le_refl 0

end Test.WellFormed

theorem groupRate_nonneg {group : List Test} (h : ∀ test ∈ group, test.WellFormed) :
    0 ≤ groupRate group := by
  apply List.sum_nonneg
  intro x hx
  obtain ⟨test, ht, rfl⟩ := List.mem_map.mp hx
  exact (h test ht).rate_nonneg

/-! ## What the script takes from a test -/

/-- `intervalNum` is absent, or is a window `s-e`. -/
def readsWindow (test : Test) : Bool :=
  match test.intervalNum with
  | none => true
  | some iterationCount =>
      let parts := Lib.split ['-'] iterationCount.toList
      (intPart parts[0]?).isOk && (intPart parts[1]?).isOk

/-- The turn of the test gets to its flag: only invokes have a window to read. -/
def counts (test : Test) : Bool :=
  !decide (test.operation = "CHAINCODE_INVOKE") || readsWindow test

/-- The rate that is added. -/
def Test.added (test : Test) : ℚ := if counts test then test.rate else 0

/-- The sum of the rates of a group. -/
def addedRate (group : List Test) : ℚ := (group.map Test.added).sum

/-- The flag that is read, if one is. -/
def flag (test : Test) : Option Bool := if counts test then test.waitUntilFinish else none

@[simp] theorem addedRate_concat (group : List Test) (test : Test) :
    addedRate (group ++ [test]) = addedRate group + test.added := by
  rw [addedRate, List.map_append, List.sum_append, List.map_singleton, List.sum_singleton]
  rfl

theorem added_nonneg {test : Test} (h : test.WellFormed) : 0 ≤ test.added := by
  unfold Test.added
  split
  · exact h.rate_nonneg
  · exact le_refl 0

theorem added_le_rate {test : Test} (h : test.WellFormed) : test.added ≤ test.rate := by
  unfold Test.added
  split
  · exact le_refl _
  · exact h.rate_nonneg

/-- Nothing is lost of a test whose turn gets to its flag, or without a rate. -/
theorem added_eq_rate {test : Test} (h : test.WellFormed)
    (hcounts : 0 < test.rate → counts test = true) : test.added = test.rate := by
  unfold Test.added
  split
  · rfl
  · rename_i hnot
    exact le_antisymm h.rate_nonneg (not_lt.mp fun hpos => hnot (hcounts hpos))

theorem addedRate_nonneg {group : List Test} (h : ∀ test ∈ group, test.WellFormed) :
    0 ≤ addedRate group := by
  apply List.sum_nonneg
  intro x hx
  obtain ⟨test, ht, rfl⟩ := List.mem_map.mp hx
  exact added_nonneg (h test ht)

theorem addedRate_flatten (groups : List (List Test)) :
    addedRate groups.flatten = (groups.map addedRate).sum := by
  rw [addedRate, List.map_flatten, List.sum_flatten, List.map_map]
  rfl

/-! ## One turn of the loop -/

/-- A window that can be read changes nothing else. -/
theorem readWindow_of_reads {test : Test} (h : readsWindow test = true) (v : Vars) :
    ∃ s e, readWindow test v = ({ v with inter_s := s, inter_e := e }, none) := by
  unfold readsWindow at h
  unfold readWindow
  cases hw : test.intervalNum with
  | none => exact ⟨0, 0, rfl⟩
  | some iterationCount =>
      simp only [hw, Bool.and_eq_true] at h
      cases hs : intPart (Lib.split ['-'] iterationCount.toList)[0]? with
      | error e => simp [hs, Except.isOk, Except.toBool] at h
      | ok s =>
          cases he : intPart (Lib.split ['-'] iterationCount.toList)[1]? with
          | error e => simp [he, Except.isOk, Except.toBool] at h
          | ok e => exact ⟨s, e, by simp only [hs, he]⟩

/-- Another one raises; at most the start of the window is set. -/
theorem readWindow_raises {test : Test} (h : ¬ readsWindow test = true) (v : Vars) :
    ∃ s err, readWindow test v = ({ v with inter_s := s }, some err) := by
  unfold readsWindow at h
  unfold readWindow
  cases hw : test.intervalNum with
  | none => simp [hw] at h
  | some iterationCount =>
      cases hs : intPart (Lib.split ['-'] iterationCount.toList)[0]? with
      | error e => exact ⟨v.inter_s, e, by simp only [hs]⟩
      | ok s =>
          cases he : intPart (Lib.split ['-'] iterationCount.toList)[1]? with
          | error e => exact ⟨s, e, by simp only [hs, he]⟩
          | ok e => simp [hw, hs, he, Except.isOk, Except.toBool] at h

theorem addTarget_eq {test : Test} (h : test.WellFormed)
    (hop : test.operation = "CHAINCODE_INVOKE") (v : Vars) :
    addTarget test v = ({ v with currentTargetTPS := v.currentTargetTPS + test.rate }, none) := by
  obtain ⟨numeral, suffix, htext, hsuffix, hfloat, hpos⟩ := h.suffix
  have hlast : (numeral ++ [suffix]).getLast? = some 'r' ∨
      (numeral ++ [suffix]).getLast? = some 's' := by
    rw [List.getLast?_concat]
    rcases hsuffix with rfl | rfl
    · exact Or.inr rfl
    · exact Or.inl rfl
  unfold addTarget Test.rate
  simp only [htext, hlast, if_true, List.dropLast_concat, hfloat, hop, true_and]
  by_cases hzero : test.interval = 0
  · simp [hzero]
  · have hgt : test.interval > 0 := lt_of_le_of_ne hpos (Ne.symm hzero)
    simp [hzero, hgt]

/-- The turn of a test that raises nothing before the flag adds the rate and
    may close the group. -/
theorem reportTest_of_counts {test : Test} (h : test.WellFormed) (hcounts : counts test = true)
    (v : Vars) (len idx : Nat) :
    ∃ s e, reportTest len v (test, idx) =
      (closeGroup test (idx == len - 1)
        { v with inter_s := s, inter_e := e,
                 currentTargetTPS := v.currentTargetTPS + test.rate }).1 := by
  by_cases hop : test.operation = "CHAINCODE_INVOKE"
  · have hreads : readsWindow test = true := by simpa [counts, hop] using hcounts
    obtain ⟨s, e, hwin⟩ := readWindow_of_reads hreads v
    refine ⟨s, e, ?_⟩
    simp only [reportTest, hop, if_true, hwin, Outcome.andThen_none, addTarget_eq h hop]
  · refine ⟨v.inter_s, v.inter_e, ?_⟩
    have hrate : test.rate = 0 := if_neg fun hand => hop hand.1
    simp only [reportTest, hop, if_false, Outcome.andThen_none, hrate, add_zero]

/-- The turn of another one leaves the rates as they are. -/
theorem reportTest_of_not_counts {test : Test} (hcounts : ¬ counts test = true) (v : Vars)
    (len idx : Nat) : ∃ s, reportTest len v (test, idx) = { v with inter_s := s } := by
  simp only [counts, Bool.or_eq_true, Bool.not_eq_true', decide_eq_false_iff_not, not_or,
    not_not] at hcounts
  obtain ⟨s, err, hwin⟩ := readWindow_raises hcounts.2 v
  refine ⟨s, ?_⟩
  simp only [reportTest, hcounts.1, if_true, hwin, Outcome.andThen]

/-- The test ends the group of the script. -/
def ends (test : Test) (last : Bool) : Bool :=
  match flag test with
  | some true => true
  | some false => last
  | none => false

/-- At the end of a group its rate is listed, if it is positive. -/
theorem closeGroup_eq {test : Test} (hcounts : counts test = true) (last : Bool) {v : Vars}
    (hpos : 0 ≤ v.currentTargetTPS) :
    (closeGroup test last v).1.targetTPSs =
        v.targetTPSs ++ (if ends test last then listed v.currentTargetTPS else []) ∧
      (closeGroup test last v).1.currentTargetTPS =
        if ends test last then 0 else v.currentTargetTPS := by
  unfold closeGroup ends flag listed
  rw [if_pos hcounts]
  cases hw : test.waitUntilFinish with
  | none => simp
  | some w =>
      by_cases hend : w ≠ false ∨ last = true
      · have hends : (match some w with
            | some true => true
            | some false => last
            | none => false) = true := by
          cases w with
          | true => rfl
          | false => simpa using hend
        simp only [hend, if_true, hends]
        by_cases hg : v.currentTargetTPS > 0
        · simp [hg]
        -- a rate of zero is not reset, and needs no reset
        · have hzero : v.currentTargetTPS = 0 := le_antisymm (not_lt.mp hg) hpos
          simp [hzero]
      · rw [not_or, not_not] at hend
        simp [hend.1, hend.2]

/-- A turn adds to the group what is counted of the test, and lists the rate of
    the group if the test ends it. -/
theorem reportTest_eq {pending : List Test} {test : Test} (htest : test.WellFormed)
    (hpending : ∀ t ∈ pending, t.WellFormed) {v : Vars} (len idx : Nat)
    (hv : v.currentTargetTPS = addedRate pending) :
    (reportTest len v (test, idx)).targetTPSs =
        v.targetTPSs ++
          (if ends test (idx == len - 1) then listed (addedRate (pending ++ [test])) else []) ∧
      (reportTest len v (test, idx)).currentTargetTPS =
        if ends test (idx == len - 1) then 0 else addedRate (pending ++ [test]) := by
  rw [addedRate_concat]
  by_cases hcounts : counts test = true
  · obtain ⟨s, e, hstep⟩ := reportTest_of_counts htest hcounts v len idx
    have hadded : test.added = test.rate := if_pos hcounts
    have hpos : 0 ≤ v.currentTargetTPS + test.rate := by
      rw [hv]
      exact add_nonneg (addedRate_nonneg hpending) htest.rate_nonneg
    rw [hstep, hadded, ← hv]
    exact closeGroup_eq hcounts (idx == len - 1) hpos
  · obtain ⟨s, hstep⟩ := reportTest_of_not_counts hcounts v len idx
    have hadded : test.added = 0 := if_neg hcounts
    have hopen : ends test (idx == len - 1) = false := by rw [ends, flag, if_neg hcounts]
    rw [hstep, hadded, hopen]
    simp [hv]

/-! ## The whole loop -/

/-- The script sees that the test waits for its group. -/
def saysWait (test : Test) : Bool := flag test == some true

theorem waits_of_saysWait (test : Test) (h : saysWait test = true) : waits test = true := by
  simp only [saysWait, flag, beq_iff_eq] at h
  split at h
  · simp [waits, h]
  · cases h

/-- The script sees no flag in the last test of the group. -/
def unset (group : List Test) : Bool := group.getLast?.any fun test => (flag test).isNone

/-- What the script lists for the tests up to one that says to wait. -/
def reported (group : List Test) : List ℚ :=
  if unset group then [] else listed (addedRate group)

theorem unset_concat (group : List Test) (test : Test) :
    unset (group ++ [test]) = (flag test).isNone := by
  rw [unset, List.getLast?_concat]
  rfl

theorem ends_of_saysWait {test : Test} (h : saysWait test = true) (last : Bool) :
    ends test last = true := by
  simp only [saysWait, beq_iff_eq] at h
  simp [ends, h]

theorem ends_of_not_saysWait {test : Test} (h : ¬ saysWait test = true) (last : Bool) :
    ends test last = (last && !(flag test).isNone) := by
  cases hw : flag test with
  | none => simp [ends, hw]
  | some w =>
      cases w with
      | true => simp [saysWait, hw] at h
      | false => simp [ends, hw]

/-- The loop from a group that is still open on. -/
theorem foldl_reportTest (tests pending : List Test) {v : Vars} {k len : Nat}
    (htests : ∀ test ∈ tests, test.WellFormed) (hpending : ∀ test ∈ pending, test.WellFormed)
    (hv : v.currentTargetTPS = addedRate pending) (hlen : len = k + tests.length)
    (hopen : pending = [] ∨ tests ≠ []) :
    ((tests.zipIdx k).foldl (reportTest len) v).targetTPSs =
      v.targetTPSs ++ (splitAfter saysWait pending tests).flatMap reported := by
  induction tests generalizing pending v k with
  | nil =>
      rcases hopen with rfl | hopen
      · simp
      · exact absurd rfl hopen
  | cons test tests ih =>
      have htest := htests test List.mem_cons_self
      have hrest : ∀ t ∈ tests, t.WellFormed := fun t ht => htests t (List.mem_cons_of_mem test ht)
      have hgroup : ∀ t ∈ pending ++ [test], t.WellFormed := by
        intro t ht
        rcases List.mem_append.mp ht with ht | ht
        · exact hpending t ht
        · exact List.mem_singleton.mp ht ▸ htest
      have hlen' : len = k + 1 + tests.length := by rw [hlen, List.length_cons]; omega
      obtain ⟨hlist, hcur⟩ := reportTest_eq htest hpending len k hv
      rw [List.zipIdx_cons, List.foldl_cons]
      by_cases hwait : saysWait test = true
      -- the script and the playbook close the group
      · rw [ends_of_saysWait hwait, if_pos rfl] at hlist hcur
        have hset : reported (pending ++ [test]) = listed (addedRate (pending ++ [test])) := by
          simp only [saysWait, beq_iff_eq] at hwait
          simp [reported, unset_concat, hwait]
        rw [ih [] hrest (by simp) hcur hlen' (Or.inl rfl), hlist, splitAfter_of_close hwait,
          List.flatMap_cons, hset, List.append_assoc]
      · rw [ends_of_not_saysWait hwait] at hlist hcur
        rw [splitAfter_of_open hwait]
        by_cases hlast : tests = []
        -- the last test ends the group, if it sets the flag
        · subst hlast
          have hk : (k == len - 1) = true := by
            rw [beq_iff_eq]
            simp only [List.length_nil] at hlen'
            omega
          rw [splitAfter_pending saysWait (by simp), List.zipIdx_nil, List.foldl_nil, hlist, hk]
          cases hw : (flag test).isNone <;> simp [reported, unset_concat, hw]
        -- otherwise it stays open, whether the flag is false or not set
        · have hk : (k == len - 1) = false := by
            have := List.length_pos_of_ne_nil hlast
            rw [beq_eq_false_iff_ne]
            omega
          rw [hk, Bool.false_and, if_neg Bool.false_ne_true] at hlist hcur
          rw [ih _ hrest hgroup hcur hlen' (Or.inr hlast), hlist, List.append_nil]

theorem targetTPSs_eq {tests : List Test} (h : ∀ test ∈ tests, test.WellFormed) :
    targetTPSs tests = (splitAfter saysWait [] tests).flatMap reported := by
  rw [targetTPSs, reportTests, foldl_reportTest tests [] h (by simp) rfl (by simp) (Or.inl rfl)]
  rfl

/-! ## The script against the playbook -/

/-- The rates of the groups that ran, as far as they are positive. -/
def groupTPSs (tests : List Test) : List ℚ :=
  ((parallelGroups tests).map groupRate).filter (0 < ·)

/-- Where the report lists the groups that ran. -/
structure GroupedAsRun (tests : List Test) : Prop where
  /-- A test with a rate has no window, or one that can be read. -/
  windows : ∀ test ∈ tests, 0 < test.rate → counts test = true
  /-- Of the groups between two tests that are seen to wait, one at most has a
      positive rate, and none has behind the last such test if no flag is seen
      in the last test of the plan. -/
  groups : ∀ piece ∈ splitAfter saysWait [] tests,
    (splitAfter waits [] piece).countP (fun group => 0 < groupRate group) ≤
      if unset piece then 0 else 1

/-- The zeros that are dropped add nothing. -/
theorem sum_filter_pos {xs : List ℚ} (hpos : ∀ x ∈ xs, 0 ≤ x) :
    (xs.filter (0 < ·)).sum = xs.sum := by
  induction xs with
  | nil => rfl
  | cons x xs ih =>
      have hrest : ∀ y ∈ xs, 0 ≤ y := fun y hy => hpos y (List.mem_cons_of_mem x hy)
      by_cases hx : 0 < x
      · rw [List.filter_cons_of_pos (by simpa using hx), List.sum_cons, List.sum_cons, ih hrest]
      · have hzero : x = 0 := le_antisymm (not_lt.mp hx) (hpos x List.mem_cons_self)
        rw [List.filter_cons_of_neg (by simpa using hx), List.sum_cons, hzero, zero_add, ih hrest]

/-- With one positive number at most, the sum is that number. -/
theorem filter_pos_of_length {xs : List ℚ} (hpos : ∀ x ∈ xs, 0 ≤ x)
    (hlen : (xs.filter (0 < ·)).length ≤ 1) : xs.filter (0 < ·) = listed xs.sum := by
  rw [← sum_filter_pos hpos]
  cases hfilter : xs.filter (0 < ·) with
  | nil => rfl
  | cons x rest =>
      have hx : 0 < x := by
        have hmem : x ∈ xs.filter (0 < ·) := hfilter ▸ List.mem_cons_self
        simpa using (List.mem_filter.mp hmem).2
      have hrest : rest = [] := by
        rw [hfilter, List.length_cons] at hlen
        exact List.eq_nil_of_length_eq_zero (by omega)
      rw [hrest, List.sum_singleton, listed, if_pos hx]

theorem groupRate_flatten (groups : List (List Test)) :
    groupRate groups.flatten = (groups.map groupRate).sum := by
  rw [groupRate, List.map_flatten, List.sum_flatten, List.map_map]
  rfl

/-- The positive rates of the groups into which a piece of the plan falls. -/
def pieceTPSs (piece : List Test) : List ℚ :=
  ((splitAfter waits [] piece).map groupRate).filter (0 < ·)

theorem groupTPSs_eq (tests : List Test) :
    groupTPSs tests = (splitAfter saysWait [] tests).flatMap pieceTPSs := by
  have hrefine := splitAfter_flatMap waits_of_saysWait [] tests
  rw [groupTPSs, parallelGroups_eq, ← List.nil_append tests, ← hrefine, List.nil_append]
  generalize splitAfter saysWait [] tests = pieces
  induction pieces with
  | nil => rfl
  | cons piece pieces ih =>
      rw [List.flatMap_cons, List.flatMap_cons, List.map_append, List.filter_append, ih]
      rfl

theorem length_pieceTPSs (piece : List Test) :
    (pieceTPSs piece).length =
      (splitAfter waits [] piece).countP fun group => 0 < groupRate group := by
  rw [pieceTPSs, ← List.countP_eq_length_filter, List.countP_map]
  rfl

theorem groupRate_piece (piece : List Test) :
    groupRate piece = ((splitAfter waits [] piece).map groupRate).sum := by
  rw [← groupRate_flatten, flatten_splitAfter, List.nil_append]

section Piece

variable {piece : List Test} (h : ∀ test ∈ piece, test.WellFormed)
include h

theorem rates_nonneg : ∀ x ∈ (splitAfter waits [] piece).map groupRate, 0 ≤ x := by
  intro x hx
  obtain ⟨group, hgroup, rfl⟩ := List.mem_map.mp hx
  refine groupRate_nonneg fun test ht => h test ?_
  have hflat := flatten_splitAfter waits [] piece
  rw [List.nil_append] at hflat
  exact hflat ▸ List.mem_flatten_of_mem hgroup ht

/-- Where nothing is lost of the rate, the script lists no more for a piece than
    the playbook runs in it. -/
theorem length_reported_le (hadded : addedRate piece = groupRate piece) :
    (reported piece).length ≤ (pieceTPSs piece).length := by
  unfold reported
  split
  · exact Nat.zero_le _
  · by_cases hnil : pieceTPSs piece = []
    · have hzero : groupRate piece = 0 := by
        rw [groupRate_piece, ← sum_filter_pos (rates_nonneg h)]
        exact congrArg List.sum hnil
      simp [hadded, hzero, listed]
    · exact le_trans (length_listed_le _) (List.length_pos_of_ne_nil hnil)

theorem reported_eq_iff (hadded : addedRate piece = groupRate piece) :
    (pieceTPSs piece).length ≤ (if unset piece then 0 else 1) ↔
      reported piece = pieceTPSs piece := by
  by_cases hu : unset piece = true
  · rw [if_pos hu, reported, if_pos hu, Nat.le_zero, List.length_eq_zero_iff]
    exact eq_comm
  · rw [if_neg hu, reported, if_neg hu, hadded]
    constructor
    · intro hle
      rw [pieceTPSs, filter_pos_of_length (rates_nonneg h) hle, ← groupRate_piece]
    · intro heq
      rw [← heq]
      exact length_listed_le _

end Piece

section Plan

variable {tests : List Test} (h : ∀ test ∈ tests, test.WellFormed)
include h

theorem wellFormed_of_piece {piece : List Test} (hp : piece ∈ splitAfter saysWait [] tests) :
    ∀ test ∈ piece, test ∈ tests ∧ test.WellFormed := by
  intro test ht
  have hflat := flatten_splitAfter saysWait [] tests
  rw [List.nil_append] at hflat
  have hmem : test ∈ tests := hflat ▸ List.mem_flatten_of_mem hp ht
  exact ⟨hmem, h test hmem⟩

/-- The script lists at most what it adds. -/
theorem sum_targetTPSs_le : (targetTPSs tests).sum ≤ addedRate tests := by
  have hflat := flatten_splitAfter saysWait [] tests
  rw [List.nil_append] at hflat
  rw [targetTPSs_eq h, ← congrArg addedRate hflat, addedRate_flatten, List.flatMap_def,
    List.sum_flatten, List.map_map]
  apply List.sum_le_sum
  intro piece hp
  have hnonneg : 0 ≤ addedRate piece :=
    addedRate_nonneg fun test ht => (wellFormed_of_piece h hp test ht).2
  show (reported piece).sum ≤ addedRate piece
  unfold reported
  split
  · exact hnonneg
  · exact sum_listed_le hnonneg

/-- The playbook runs the rates of all the tests. -/
theorem sum_groupTPSs : (groupTPSs tests).sum = groupRate tests := by
  rw [groupTPSs, parallelGroups_eq, sum_filter_pos (rates_nonneg h), ← groupRate_piece]

/-- A report that lists the groups has lost no rate. -/
theorem counts_of_eq (heq : targetTPSs tests = groupTPSs tests) :
    ∀ test ∈ tests, 0 < test.rate → counts test = true := by
  intro test ht hpos
  by_contra hnot
  have hlost : addedRate tests < groupRate tests := by
    refine List.sum_lt_sum Test.added Test.rate (fun t ht => added_le_rate (h t ht)) ⟨test, ht, ?_⟩
    rw [Test.added, if_neg hnot]
    exact hpos
  have hle := sum_targetTPSs_le h
  rw [heq, sum_groupTPSs h] at hle
  exact absurd hle (not_le.mpr hlost)

/-- Where no rate is lost, none is in a piece. -/
theorem addedRate_piece (hwindows : ∀ test ∈ tests, 0 < test.rate → counts test = true)
    {piece : List Test} (hp : piece ∈ splitAfter saysWait [] tests) :
    addedRate piece = groupRate piece := by
  unfold addedRate groupRate
  congr 1
  apply List.map_congr_left
  intro test ht
  obtain ⟨hmem, htest⟩ := wellFormed_of_piece h hp test ht
  exact added_eq_rate htest (hwindows test hmem)

end Plan

/-- The target rates of the report are the positive rates of the groups, in
    their order, for the plans of `GroupedAsRun` and no others. -/
theorem targetTPSs_eq_iff {tests : List Test} (h : ∀ test ∈ tests, test.WellFormed) :
    targetTPSs tests = groupTPSs tests ↔ GroupedAsRun tests := by
  have hpiece : ∀ piece ∈ splitAfter saysWait [] tests, ∀ test ∈ piece, test.WellFormed :=
    fun _ hp test ht => (wellFormed_of_piece h hp test ht).2
  constructor
  · intro heq
    have hwindows := counts_of_eq h heq
    have hadded : ∀ piece ∈ splitAfter saysWait [] tests, addedRate piece = groupRate piece :=
      fun _ hp => addedRate_piece h hwindows hp
    refine ⟨hwindows, fun piece hp => ?_⟩
    rw [targetTPSs_eq h, groupTPSs_eq] at heq
    -- the lists agree piece by piece, as no piece of the report is longer
    have hlen := length_eq_of_flatMap_eq
      (fun piece hp => length_reported_le (hpiece piece hp) (hadded piece hp)) heq piece hp
    rw [← length_pieceTPSs, ← hlen]
    unfold reported
    split
    · exact Nat.zero_le _
    · exact length_listed_le _
  · intro hgrouped
    rw [targetTPSs_eq h, groupTPSs_eq]
    apply List.flatMap_congr
    intro piece hp
    refine (reported_eq_iff (hpiece piece hp) (addedRate_piece h hgrouped.windows hp)).mp ?_
    rw [length_pieceTPSs]
    exact hgrouped.groups piece hp

/-- A test of invokes, one each second from every pod. -/
def invoke (waitUntilFinish : Option Bool) (loadSpread : ℚ) : Test :=
  ⟨"CHAINCODE_INVOKE", waitUntilFinish, some loadSpread, some "1s", none⟩

theorem invoke_wellFormed (waitUntilFinish : Option Bool) {loadSpread : ℚ} (h : 0 < loadSpread) :
    (invoke waitUntilFinish loadSpread).WellFormed where
  loadSpread n hn := by cases hn; exact h
  iterationInterval text ht := by
    cases ht
    exact ⟨['1'], 's', rfl, Or.inl rfl, 1, by decide +kernel, zero_le_one⟩

/-- Two tests in parallel, the second says to wait, and a third one. -/
theorem targetTPSs_eq_iff_plan :
    targetTPSs [invoke (some false) 2, invoke (some true) 3, invoke (some false) 4] =
      groupTPSs [invoke (some false) 2, invoke (some true) 3, invoke (some false) 4] := by
  refine (targetTPSs_eq_iff fun test ht => ?_).mpr ?_
  · simp only [List.mem_cons, List.not_mem_nil, or_false] at ht
    rcases ht with rfl | rfl | rfl
    · exact invoke_wellFormed _ (by norm_num)
    · exact invoke_wellFormed _ (by norm_num)
    · exact invoke_wellFormed _ (by norm_num)
  · exact ⟨by decide +kernel, by decide +kernel⟩

/-- Two tests one after the other, the first of which leaves the flag to its
    default. -/
def defaultPlan : List Test := [invoke none 2, invoke (some true) 3]

/-- The report shows one group where the playbook ran two. -/
theorem default_flag_merges_groups :
    (∀ test ∈ defaultPlan, test.WellFormed) ∧ targetTPSs defaultPlan = [5] ∧
      groupTPSs defaultPlan = [2, 3] ∧ targetTPSs defaultPlan ≠ groupTPSs defaultPlan := by
  have hreport : targetTPSs defaultPlan = [5] := by decide +kernel
  have hrun : groupTPSs defaultPlan = [2, 3] := by decide +kernel
  refine ⟨fun test ht => ?_, hreport, hrun, ?_⟩
  · simp only [defaultPlan, List.mem_cons, List.not_mem_nil, or_false] at ht
    rcases ht with rfl | rfl
    · exact invoke_wellFormed _ (by norm_num)
    · exact invoke_wellFormed _ (by norm_num)
  · rw [hreport, hrun]
    simp

end Hfrd.Report
