/-
  Hfrd.GoSdk.NameList

  `createChannels`, `updateChannels` and `instantiateChaincode` with their
  operation on one channel left open.

  Each has two modes.  With a name prefix it hands the operation to
  `IterateFunc`, which reports a failure; with a list of names it loops over
  the list by hand.  `instantiateChaincode` returns the first error of that
  loop, the other two do not look at the errors.
-/

import Hfrd.GoSdk.ChannelCommand

namespace Hfrd.GoSdk

open Hfrd.Go

/-! ## The three commands -/

/-- One operation on a channel: the channel is noted as attempted. -/
def attempt (singleChannel : String → GoError) (attempted : List String)
    (channelName : String) : List String × GoError :=
  (attempted ++ [channelName], singleChannel channelName)

/-- The loop of `createChannels` and `updateChannels` over the list. -/
def dropErrors (singleChannel : String → GoError) (attempted : List String) :
    List String → List String × GoError
  | [] => (attempted, none)
  | channelName :: rest =>
      -- the error of the operation is not assigned to anything
      dropErrors singleChannel (attempt singleChannel attempted channelName).1 rest

/-- The loop of `instantiateChaincode` over the list. -/
def returnErrors (singleChannel : String → GoError) (attempted : List String) :
    List String → List String × GoError
  | [] => (attempted, none)
  | channelName :: rest =>
      match attempt singleChannel attempted channelName with
      | (attempted, some err) => (attempted, some err)
      | (attempted, none) => returnErrors singleChannel attempted rest

/-- The operation as an iteration in prefix mode. -/
def prefixFunc (channelNamePrefix : String) (singleChannel : String → GoError) :
    IterFunc (List String) Int64 Unit :=
  atomicFunc fun iterationIndex attempted _ =>
    some (attempt singleChannel attempted (channelNamePrefix ++ itoa iterationIndex))

/-- A command: the steps before the loop, then one of its two modes.  The
    result is the channels attempted and the error returned. -/
def channelCommand (env : ChannelSettings) (prepared : Except String String) (sequential : Bool)
    (singleChannel : String → GoError) (listLoop : List String → List String × GoError)
    (schedule : List (Label Unit)) : Option (List String × GoError) :=
  match prepared with
  | .error err => some ([], some err)
  | .ok iterationCount =>
      if env.channelNamePrefix ≠ "" ∧ env.channelNameList ≠ [] then
        some ([], some MUTUAL_EXCLUSIVE)
      else if env.channelNamePrefix ≠ "" then
        (runIterateFunc
          (env.config (prefixFunc env.channelNamePrefix singleChannel) sequential iterationCount)
          [] env.prefixOffset schedule).map fun s => (s.shared, s.retErr)
      else if env.channelNameList ≠ [] then some (listLoop env.channelNameList)
      else some ([], some NO_CHANNEL_NAMES)

/-- `createChannels` -/
def createChannels (env : ChannelSettings) (singleChannelCreate : String → GoError)
    (schedule : List (Label Unit)) : Option (List String × GoError) :=
  channelCommand env env.prepare false singleChannelCreate (dropErrors singleChannelCreate [])
    schedule

/-- `updateChannels` -/
def updateChannels (env : ChannelSettings) (singleChannelUpdate : String → GoError)
    (schedule : List (Label Unit)) : Option (List String × GoError) :=
  channelCommand env env.prepareUpdate false singleChannelUpdate
    (dropErrors singleChannelUpdate []) schedule

/-- `collectionsConfig` is what reading the collections config answers. -/
def instantiateChaincode (env : ChannelSettings) (collectionsConfig : GoError)
    (instantiate : String → GoError) (schedule : List (Label Unit)) :
    Option (List String × GoError) :=
  channelCommand env (env.prepareInstantiate collectionsConfig) true instantiate
    (returnErrors instantiate []) schedule

/-! ## List mode -/

theorem dropErrors_eq (singleChannel : String → GoError) (attempted names : List String) :
    dropErrors singleChannel attempted names = (attempted ++ names, none) := by
  induction names generalizing attempted with
  | nil => rw [dropErrors, List.append_nil]
  | cons name names ih => rw [dropErrors, attempt, ih, List.append_assoc, List.singleton_append]

/-- The loop that returns errors stops at the first operation that fails. -/
theorem returnErrors_spec (singleChannel : String → GoError) (attempted names : List String) :
    (returnErrors singleChannel attempted names).2 = none ↔
      (∀ c ∈ names, singleChannel c = none) ∧
        (returnErrors singleChannel attempted names).1 = attempted ++ names := by
  induction names generalizing attempted with
  | nil => simp [returnErrors]
  | cons name names ih =>
      cases hout : singleChannel name with
      | some err => simp [returnErrors, attempt, hout]
      | none =>
          simp only [returnErrors, attempt, hout, ih, List.forall_mem_cons, true_and,
            List.append_assoc, List.singleton_append]

/-- A nil result means that every executed operation returned nil and that
    every listed channel was attempted. -/
def ReportsFailures (singleChannel : String → GoError) (names : List String)
    (r : List String × GoError) : Prop :=
  r.2 = none ↔ (∀ c ∈ r.1, singleChannel c = none) ∧ r.1 = names

/-- The command ends before its loop. -/
def Rejected (prepared : Except String String) : Prop := ∃ err, prepared = .error err

/-- What a command in list mode returns. -/
theorem channelCommand_list {env : ChannelSettings} {prepared : Except String String}
    {sequential : Bool} {singleChannel : String → GoError}
    {listLoop : List String → List String × GoError} {schedule : List (Label Unit)}
    {r : List String × GoError} (hname : env.channelNamePrefix = "")
    (hlist : env.channelNameList ≠ [])
    (hrun : channelCommand env prepared sequential singleChannel listLoop schedule = some r) :
    (∃ err, prepared = .error err ∧ r = ([], some err)) ∨
      ((∃ iterationCount, prepared = .ok iterationCount) ∧ r = listLoop env.channelNameList) := by
  unfold channelCommand at hrun
  cases prepared with
  | error err => exact Or.inl ⟨err, rfl, (Option.some.inj hrun).symm⟩
  | ok iterationCount =>
      simp only [hname, ne_eq, not_true_eq_false, false_and, if_false] at hrun
      rw [if_pos hlist] at hrun
      exact Or.inr ⟨⟨iterationCount, rfl⟩, (Option.some.inj hrun).symm⟩

/-- A command that ends before its loop reports its failure. -/
theorem reportsFailures_of_error {singleChannel : String → GoError} {names : List String}
    (hnames : names ≠ []) (err : String) :
    ReportsFailures singleChannel names ([], some err) :=
  ⟨nofun, fun h => absurd h.2.symm hnames⟩

/-- The sibling loop of `instantiateChaincode` reports every failure. -/
theorem instantiateChaincode_reports (env : ChannelSettings) (collectionsConfig : GoError)
    (instantiate : String → GoError) (schedule : List (Label Unit)) (r : List String × GoError)
    (hname : env.channelNamePrefix = "") (hlist : env.channelNameList ≠ [])
    (hrun : instantiateChaincode env collectionsConfig instantiate schedule = some r) :
    ReportsFailures instantiate env.channelNameList r := by
  rcases channelCommand_list hname hlist hrun with ⟨err, -, rfl⟩ | ⟨-, rfl⟩
  · exact reportsFailures_of_error hlist err
  · have hspec := returnErrors_spec instantiate [] env.channelNameList
    rw [List.nil_append] at hspec
    refine hspec.trans (and_congr_left fun hall => ?_)
    rw [hall]

/-- The loop that drops errors reports no failure. -/
theorem dropErrors_reports_iff (singleChannel : String → GoError) (names : List String) :
    ReportsFailures singleChannel names (dropErrors singleChannel [] names) ↔
      ∀ c ∈ names, singleChannel c = none := by
  rw [dropErrors_eq]
  exact ⟨fun h => (h.mp rfl).1, fun h => ⟨fun _ => ⟨h, rfl⟩, fun _ => rfl⟩⟩

/-! ## Prefix mode -/

/-- The channels of prefix mode without an offset. -/
def prefixNames (channelNamePrefix : String) (iterationCount : Int64) : List String :=
  (List.range iterationCount.toInt.toNat).map fun i => channelNamePrefix ++ itoa (Int64.ofNat i)

/-- What a command in prefix mode returns: a nil error exactly when no
    operation fails with an error that has to be reported. -/
theorem channelCommand_names {env : ChannelSettings} {prepared : Except String String}
    {sequential : Bool} {singleChannel : String → GoError}
    {listLoop : List String → List String × GoError} {schedule : List (Label Unit)}
    {r : List String × GoError} {n : Int64}
    (hrun : channelCommand env prepared sequential singleChannel listLoop schedule = some r)
    (hname : env.channelNamePrefix ≠ "") (hlist : env.channelNameList = [])
    (hoffset : env.prefixOffset = 0)
    (hn : ∀ iterationCount, prepared = .ok iterationCount → atoi iterationCount = some n) :
    r.2 = none ↔ ¬ Rejected prepared ∧
      ∀ c ∈ prefixNames env.channelNamePrefix n, reportable (singleChannel c) = false := by
  unfold channelCommand at hrun
  cases hprep : prepared with
  | error err =>
      rw [hprep] at hrun
      cases hrun
      exact ⟨nofun, fun h => absurd ⟨err, rfl⟩ h.1⟩
  | ok iterationCount =>
      simp only [hprep, hlist, ne_eq, not_true_eq_false, and_false, if_false] at hrun
      rw [if_pos hname] at hrun
      obtain ⟨s, hs, rfl⟩ := Option.map_eq_some_iff.mp hrun
      have hcount := hn iterationCount hprep
      have hout : ∀ x ∈ s.returns, x.2 = singleChannel (env.channelNamePrefix ++ itoa x.1) := by
        refine runIterateFunc_effects (fun _ returns => ∀ x ∈ returns,
          x.2 = singleChannel (env.channelNamePrefix ++ itoa x.1)) rfl hs
          (fun _ h => absurd h List.not_mem_nil) ?_
        intro shared returns i choice shared' err hP hcall x hx
        cases hcall
        rcases List.mem_append.mp hx with hold | hnew
        · exact hP x hold
        · rw [List.mem_singleton.mp hnew]
      refine ⟨fun hnil => ⟨nofun, fun c hc => ?_⟩, fun h => ?_⟩
      · -- every name of the range has been attempted, and no outcome had to be reported
        obtain ⟨hperm, hquiet⟩ := runIterateFunc_nil hcount hs hnil
        obtain ⟨i, hi, rfl⟩ := List.mem_map.mp hc
        have hmem : Int64.ofNat i ∈ s.returns.map (·.1) := by
          apply hperm.mem_iff.mpr
          rw [hoffset]
          refine List.mem_map.mpr ⟨i, ?_, Int64.zero_add _⟩
          simpa using hi
        obtain ⟨x, hx, hxi⟩ := List.mem_map.mp hmem
        rw [← hxi, ← hout x hx]
        exact hquiet x hx
      · by_contra herr
        obtain ⟨x, hx, hrep⟩ := runIterateFunc_error hcount hs herr
        obtain ⟨k, hk, hxk⟩ := runIterateFunc_index hcount hs x hx
        have hquiet := h.2 (env.channelNamePrefix ++ itoa x.1) (by
          refine List.mem_map.mpr ⟨k, ?_, ?_⟩
          · simpa [hoffset] using hk
          · rw [hxk, hoffset, Int64.zero_add])
        rw [← hout x hx, hrep] at hquiet
        cases hquiet

/-! ## The two modes against each other -/

theorem atoi_of_prepare {env : ChannelSettings} {n : Int64} {iterationCount : String}
    (hoffset : env.prefixOffset = 0) (hn : atoi env.iterationCount = some n)
    (h : env.prepare = .ok iterationCount) : atoi iterationCount = some n := by
  have hshift : env.shiftedCount = .ok (itoa n) := by
    simp only [Settings.shiftedCount, hn, hoffset, Int64.add_zero]
  simp only [ChannelSettings.prepare, bind_eq_ok, hshift] at h
  obtain ⟨count, hcount, -, -, -, -, hpure⟩ := h
  cases hcount
  cases hpure
  exact atoi_itoa n

theorem atoi_of_prepareUpdate {env : ChannelSettings} {n : Int64} {iterationCount : String}
    (hoffset : env.prefixOffset = 0) (hn : atoi env.iterationCount = some n)
    (h : env.prepareUpdate = .ok iterationCount) : atoi iterationCount = some n := by
  simp only [ChannelSettings.prepareUpdate, bind_eq_ok, hn, hoffset, Int64.add_zero] at h
  obtain ⟨-, -, hpure⟩ := h
  cases hpure
  exact atoi_itoa n

/-- What a command makes of the outcomes of a list of channels, and of the same
    channels given as a prefix and a count. -/
structure ListAndPrefix (env : ChannelSettings) (prepared : Except String String)
    (command : ChannelSettings → List (Label Unit) → Option (List String × GoError))
    (singleChannel : String → GoError) : Prop where
  /-- List mode reports exactly the failures when the command ends before its
      loop, or no listed operation fails. -/
  reports : ∀ names schedule r, names ≠ [] →
    command { env with channelNamePrefix := "", channelNameList := names } schedule = some r →
    (ReportsFailures singleChannel names r ↔
      Rejected prepared ∨ ∀ c ∈ names, singleChannel c = none)
  /-- The two modes agree on success when the command ends before its loop, or
      no listed operation fails with an error that has to be reported. -/
  agrees : ∀ channelNamePrefix n schedule schedule' r r', channelNamePrefix ≠ "" →
    env.prefixOffset = 0 → atoi env.iterationCount = some n → prefixNames channelNamePrefix n ≠ [] →
    command { env with
      channelNamePrefix := "", channelNameList := prefixNames channelNamePrefix n }
        schedule = some r →
    command { env with channelNamePrefix := channelNamePrefix, channelNameList := [] }
        schedule' = some r' →
    ((r.2 = none ↔ r'.2 = none) ↔
      Rejected prepared ∨
        ∀ c ∈ prefixNames channelNamePrefix n, reportable (singleChannel c) = false)

/-- The commands that drop the errors of their list loop. -/
theorem listAndPrefix_of_dropErrors {env : ChannelSettings}
    {prepare : ChannelSettings → Except String String} {singleChannel : String → GoError}
    (hprep : ∀ names channelNamePrefix, prepare { env with
      channelNamePrefix := channelNamePrefix, channelNameList := names } = prepare env)
    (hcount : ∀ n iterationCount, env.prefixOffset = 0 → atoi env.iterationCount = some n →
      prepare env = .ok iterationCount → atoi iterationCount = some n) :
    ListAndPrefix env (prepare env) (fun env schedule => channelCommand env (prepare env) false
      singleChannel (dropErrors singleChannel []) schedule) singleChannel := by
  constructor
  · intro names schedule r hnames hrun
    rcases channelCommand_list rfl hnames hrun with ⟨err, herr, rfl⟩ | ⟨⟨count, hok⟩, rfl⟩
    · rw [hprep] at herr
      exact iff_of_true (reportsFailures_of_error hnames err) (Or.inl ⟨err, herr⟩)
    · rw [hprep] at hok
      rw [dropErrors_reports_iff]
      exact ⟨Or.inr, fun h => h.resolve_left (by rw [hok]; exact nofun)⟩
  · intro channelNamePrefix n schedule schedule' r r' hname hoffset hn hnames hrun hrun'
    have hnamed := channelCommand_names (n := n) hrun' hname rfl hoffset
      fun iterationCount hok => hcount n iterationCount hoffset hn ((hprep _ _).symm.trans hok)
    rw [hprep] at hnamed
    rcases channelCommand_list rfl hnames hrun with ⟨err, herr, rfl⟩ | ⟨⟨count, hok⟩, rfl⟩
    · -- the prefix mode is rejected too
      rw [hprep] at herr
      have hrej : Rejected (prepare env) := ⟨err, herr⟩
      refine iff_of_true ⟨nofun, fun h => ?_⟩ (Or.inl hrej)
      exact absurd hrej (hnamed.mp h).1
    · rw [hprep] at hok
      have hnot : ¬ Rejected (prepare env) := by
        rw [hok]
        exact nofun
      rw [dropErrors_eq, hnamed]
      simp only [hnot, not_false_eq_true, true_and, true_iff, false_or]

/-- **When the name-list mode of create and update reports what happened.**
    It does when no listed operation fails, or the command ends before its
    loop, and then only; in the same way it agrees with prefix mode. -/
theorem createChannels_updateChannels_report_iff (env : ChannelSettings)
    (singleChannel : String → GoError) :
    ListAndPrefix env env.prepare (fun env schedule => createChannels env singleChannel schedule)
        singleChannel ∧
      ListAndPrefix env env.prepareUpdate
        (fun env schedule => updateChannels env singleChannel schedule) singleChannel :=
  ⟨listAndPrefix_of_dropErrors (fun _ _ => rfl) fun _ _ => atoi_of_prepare,
    listAndPrefix_of_dropErrors (fun _ _ => rfl) fun _ _ => atoi_of_prepareUpdate⟩

/-- The only channel of the list cannot be created, and the command succeeds. -/
theorem createChannels_drops_error :
    createChannels oneChannel (fun _ => some "timeout") [] = some (["ch0"], none) ∧
      ¬ ReportsFailures (fun _ => some "timeout") ["ch0"] (["ch0"], none) := by
  refine ⟨by decide, fun h => ?_⟩
  exact absurd ((h.mp rfl).1 "ch0" List.mem_cons_self) (by decide)

theorem createChannels_updateChannels_report_ch0 :
    ReportsFailures (fun _ => none) ["ch0"] (["ch0"], none) :=
  ((createChannels_updateChannels_report_iff oneChannel (fun _ => none)).1.reports
    ["ch0"] [] (["ch0"], none) (by decide) (by decide)).mpr (Or.inr fun _ _ => rfl)

end Hfrd.GoSdk
