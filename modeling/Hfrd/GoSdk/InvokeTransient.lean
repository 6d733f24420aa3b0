/-
  Hfrd.GoSdk.InvokeTransient

  The transient map that an iteration of `invokeChaincode` sends when no other
  iteration interrupts it (modules/gosdk/chaincode/invoke.go).

  `GenerateChaincodeParams` gives a static and a dynamic map.  The iteration
  stores the static one and then, over it, the dynamic one, each unless it is
  nil.  The dynamic map is made on every path, so that it is what is sent:
  a static entry arrives only under a key that was generated as well.
-/

import Hfrd.Ansible.PreRunTest
import Hfrd.GoSdk.TransientMap

namespace Hfrd.GoSdk

open Hfrd.Go Hfrd.Lib

variable {ρ : Type} {maxAlloc : Int64}

/-! ## An iteration on its own -/

/-- The steps of one iteration, without those of any other in between. -/
def runAlone (choice : InvokePc → InvokeChoice) :
    Nat → InvokeShared → InvokePc → Option (InvokeShared × GoError)
  | 0, _, _ => none
  | fuel + 1, sh, pc => match invokeStep sh pc (choice pc) with
    | none => none
    | some (sh, .inl pc) => runAlone choice fuel sh pc
    | some (sh, .inr err) => some (sh, err)

/-- What was generated, and the error of the request. -/
def answers (params : Except String Generated) (err : GoError) : InvokePc → InvokeChoice
  | .generate _ => .params params
  | _ => .answer err

/-- `invokeFunc` takes four steps at most. -/
def iterationAlone (params : Except String Generated) (err : GoError) (sh : InvokeShared)
    (iterationIndex : Int64) : Option (InvokeShared × GoError) :=
  runAlone (answers params err) 4 sh (.generate iterationIndex)

/-- An iteration on its own sends the pair that it has generated, whatever the
    iterations before it have left in the record. -/
theorem iterationAlone_ok (p : Generated) (err : GoError) (sh : InvokeShared)
    (iterationIndex : Int64) :
    iterationAlone (.ok p) err sh iterationIndex
      = some ({ cc := p.pair,
                generated := sh.generated ++ [(iterationIndex, p.pair)],
                sent := sh.sent ++ [(iterationIndex, p.pair)] },
          withMessage "failed to execute chaincode" err) := by
  simp only [iterationAlone, runAlone, answers, invokeStep, p.or_transientMap]
  rfl

/-! ## Combining the maps -/

/-- The request holds every dynamic entry, and every static one whose key is
    not a dynamic key. -/
def Combined (transientStaticMap transientDynamicMap request : Option TransientMap) : Prop :=
  (∀ key bytes, (transientStaticMap.getD []).lookup key = some bytes →
    (transientDynamicMap.getD []).lookup key = none →
    (request.getD []).lookup key = some bytes) ∧
  ∀ key bytes, (transientDynamicMap.getD []).lookup key = some bytes →
    (request.getD []).lookup key = some bytes

/-- The dynamic map on its own combines the two where it has every static key. -/
theorem combined_dynamic_iff (transientStaticMap transientDynamicMap : Option TransientMap) :
    Combined transientStaticMap transientDynamicMap transientDynamicMap ↔
      ∀ key, ((transientStaticMap.getD []).lookup key).isSome = true →
        ((transientDynamicMap.getD []).lookup key).isSome = true := by
  constructor
  · intro h key hstatic
    obtain ⟨bytes, hbytes⟩ := Option.isSome_iff_exists.mp hstatic
    by_contra hdynamic
    have hnone := Option.not_isSome_iff_eq_none.mp hdynamic
    have hsent := h.1 key bytes hbytes hnone
    rw [hnone] at hsent
    cases hsent
  · intro h
    refine ⟨fun key bytes hstatic hnone => ?_, fun _ _ hdynamic => hdynamic⟩
    have hsome := h key (by rw [hstatic]; rfl)
    rw [hnone] at hsome
    cases hsome

/-- **When no static entry is dropped.**  An iteration that runs alone sends a
    map that combines the static and the dynamic one, if and only if every
    static key is one of the dynamic keys. -/
theorem transient_maps_combined_iff (src : Source maxAlloc ρ) (chaincodeParamArray : List String)
    (transientMap : String) (dynamicTransientMapKs dynamicTransientMapVs : List String)
    (iterationIndex : Int64) (r : ρ) (sh : InvokeShared) (err : GoError) {p : Generated} {r' : ρ}
    (h : generateChaincodeParams src chaincodeParamArray transientMap dynamicTransientMapKs
      dynamicTransientMapVs iterationIndex r = .ok (p, r')) :
    (∃ sh' request, iterationAlone (.ok p) err sh iterationIndex
        = some (sh', withMessage "failed to execute chaincode" err) ∧
      sh'.sent = sh.sent ++ [(iterationIndex, request)] ∧
      Combined p.transientStaticMap p.transientDynamicMap request.transientMap) ↔
    ∀ tStaticMap, staticMap transientMap = some tStaticMap →
      ∀ key, ((tStaticMap.getD []).lookup key).isSome = true →
        key ∈ dynamicKeys dynamicTransientMapKs dynamicTransientMapVs := by
  obtain ⟨r₁, dynamic, -, hstatic, hloop, hdynamic⟩ := generateChaincodeParams_eq_ok.mp h
  have hkeys : ∀ key, ((p.transientDynamicMap.getD []).lookup key).isSome = true ↔
      key ∈ dynamicKeys dynamicTransientMapKs dynamicTransientMapVs := by
    intro key
    rw [hdynamic, Option.getD_some, dynamicMapLoop_isSome hloop]
    simp
  have hcombined := combined_dynamic_iff p.transientStaticMap p.transientDynamicMap
  simp only [hkeys] at hcombined
  constructor
  · rintro ⟨sh', request, halone, hsent, hrequest⟩ tStaticMap htStaticMap
    obtain rfl := Option.some.inj (hstatic.symm.trans htStaticMap)
    rw [iterationAlone_ok] at halone
    obtain rfl := (Prod.mk.inj (Option.some.inj halone)).1
    -- the request is the pair that was generated
    have hpair := List.append_cancel_left hsent
    obtain rfl : p.pair = request := (Prod.mk.inj (List.singleton_inj.mp hpair)).2
    exact hcombined.mp hrequest
  · intro hall
    exact ⟨_, p.pair, iterationAlone_ok p err sh iterationIndex, rfl,
      hcombined.mpr (hall p.transientStaticMap hstatic)⟩

theorem staticMap_asset : staticMap "\x7b\"asset\":\"aGVsbG8=\"\x7d"
    = some (some [("asset", [104, 101, 108, 108, 111])]) := by
  have htext : "\x7b\"asset\":\"aGVsbG8=\"\x7d".toList
      = (Value.object [("asset", .string "aGVsbG8=")]).text := by decide +kernel
  have hbytes : bytesValue (.string "aGVsbG8=") = some [104, 101, 108, 108, 111] := by
    decide +kernel
  rw [staticMap, if_neg (by decide), unmarshalTransientMap, htext, parse_text]
  simp only [Value.decoded, Value.decodedFields, Option.bind_some, List.mapM_cons,
    List.mapM_nil, hbytes]
  rfl

theorem required_put : 1 ≤ ["put"].length := Nat.le_refl 1

/-- One argument, the static key `asset` and a dynamic map. -/
def assetParams (dynamic : TransientMap) : Generated where
  chaincodeArgs := ["put"]
  transientStaticMap := some [("asset", [104, 101, 108, 108, 111])]
  transientDynamicMap := some dynamic
  required := required_put
  madeDynamic := @Option.isSome_some TransientMap dynamic

theorem generate_asset {ks vs : List String} {dynamic : TransientMap}
    (h : dynamicMapLoop Ansible.zeros 1 (dynamicKeys ks vs) vs [] () = .ok (dynamic, ())) :
    generateChaincodeParams Ansible.zeros ["literal~~~put"] "\x7b\"asset\":\"aGVsbG8=\"\x7d"
        ks vs 1 () = .ok (assetParams dynamic, ()) := by
  have hargs : getComplexArgs Ansible.zeros ["literal~~~put"] 1 () = .ok (["put"], ()) := by decide
  exact generateChaincodeParams_eq_ok.mpr ⟨(), dynamic, hargs, staticMap_asset, h, rfl⟩

/-- The key is generated as well: {"size":5} is sent under it. -/
theorem transient_maps_combined_iff_same_key :
    ∃ sh' request, iterationAlone (.ok (assetParams
        [("asset", [123, 34, 115, 105, 122, 101, 34, 58, 53, 125])])) none .fresh 1
        = some (sh', withMessage "failed to execute chaincode" none) ∧
      sh'.sent = InvokeShared.fresh.sent ++ [(1, request)] ∧
      Combined (some [("asset", [104, 101, 108, 108, 111])])
        (some [("asset", [123, 34, 115, 105, 122, 101, 34, 58, 53, 125])])
        request.transientMap := by
  have hloop : dynamicMapLoop Ansible.zeros 1
      (dynamicKeys ["asset", ""] ["literal~~~size~~~5#", ""]) ["literal~~~size~~~5#", ""] [] ()
        = .ok ([("asset", [123, 34, 115, 105, 122, 101, 34, 58, 53, 125])], ()) := by
    decide +kernel
  refine (transient_maps_combined_iff Ansible.zeros ["literal~~~put"]
    "\x7b\"asset\":\"aGVsbG8=\"\x7d" ["asset", ""] ["literal~~~size~~~5#", ""] 1 () .fresh none
    (generate_asset hloop)).mpr ?_
  intro tStaticMap hstatic key hkey
  obtain rfl := Option.some.inj (staticMap_asset.symm.trans hstatic)
  by_cases hasset : key = "asset"
  · rw [hasset]
    decide
  · simp [List.lookup_cons, beq_false_of_ne hasset] at hkey

/-- A static map and no dynamic keys: the request holds no entry. -/
theorem static_entry_dropped :
    generateChaincodeParams Ansible.zeros ["literal~~~put"] "\x7b\"asset\":\"aGVsbG8=\"\x7d"
        [] [] 1 () = .ok (assetParams [], ()) ∧
      (iterationAlone (.ok (assetParams [])) none .fresh 1).map (·.1.sent)
        = some [(1, ⟨["put"], some []⟩)] ∧
      ¬ Combined (assetParams []).transientStaticMap (assetParams []).transientDynamicMap
        (some []) := by
  refine ⟨generate_asset rfl, rfl, fun h => ?_⟩
  have hsent := h.1 "asset" [104, 101, 108, 108, 111] (by decide) (by decide)
  cases hsent

end Hfrd.GoSdk
