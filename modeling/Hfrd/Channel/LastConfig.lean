/-
  Hfrd.Channel.LastConfig

  `QueryChannelConfigBlock` (modules/gosdk/channel/utilities/channel.go): the
  newest block of a channel names, in its metadata, the block that holds the
  current config.

  What the ledger client answers is given, as the pairs of a pointer and an
  error that Go has it.  Two shapes of the newest block are not caught: without
  metadata the function returns `err`, which is nil there, and with less
  metadata than it indexes it panics.
-/

import Hfrd.Channel.ChannelGroup

namespace Hfrd.Channel

open Hfrd.Go

/-! ## Blocks and answers -/

/-- `common.BlockHeader` -/
structure BlockHeader where
  number : UInt64
  previousHash : List UInt8
  dataHash : List UInt8
deriving DecidableEq

/-- `common.Block`; each of its parts is a pointer. -/
structure Block where
  header : Option BlockHeader
  data : Option (List (List UInt8))
  metadata : Option (List (List UInt8))
deriving DecidableEq

/-- `GetHeader().GetNumber()` -/
def Block.number (block : Block) : UInt64 :=
  match block.header with
  | some header => header.number
  | none => 0

/-- `common.BlockMetadataIndex_LAST_CONFIG` -/
def lastConfigIndex : Nat := 1

/-- `common.BlockchainInfo`, the field that is read. -/
structure BlockchainInfo where
  currentBlockHash : List UInt8

/-- `fab.BlockchainInfoResponse`, the field that is read. -/
structure BlockchainInfoResponse where
  bci : Option BlockchainInfo

/-- The answers of the ledger client. -/
structure LedgerClient where
  queryInfo : Option BlockchainInfoResponse × GoError
  queryBlockByHash : List UInt8 → Option Block × GoError
  queryBlock : UInt64 → Option Block × GoError

/-- `QueryBlock` answers with the block that has the number. -/
def LedgerClient.Numbered (ledgerClient : LedgerClient) : Prop :=
  ∀ n block, (ledgerClient.queryBlock n).1 = some block → block.number = n

/-- The messages of `proto` that are read and written here. -/
structure Proto where
  marshal : Option Block → Except String (List UInt8)
  /-- The block after `Unmarshal`, whose error is not looked at. -/
  unmarshalBlock : List UInt8 → Block
  /-- The value in a `common.Metadata`. -/
  unmarshalMetadata : List UInt8 → Except String (List UInt8)
  /-- The index in a `common.LastConfig`. -/
  unmarshalLastConfig : List UInt8 → Except String UInt64

/-- A nil pointer is not marshalled, and a block has its metadata after the way
    there and back. -/
structure Proto.Documented (proto : Proto) : Prop where
  marshal_nil : ∃ err, proto.marshal none = .error err
  metadata_back : ∀ block bytes, proto.marshal (some block) = .ok bytes →
    (proto.unmarshalBlock bytes).metadata = block.metadata

/-! ## The code -/

/-- The error of `proto.Unmarshal`, returned. -/
def fromProto {α : Type} : Except String α → Except Failure α
  | .ok a => .ok a
  | .error err => .error (.error err)

variable (proto : Proto)

/-- An index past the end of the metadata is a panic. -/
def getMetadataFromBlock (block : Block) (index : Nat) : Except Failure (List UInt8) := do
  let metadata ← orPanic block.metadata
  let entry ← orPanic metadata[index]?
  fromProto (proto.unmarshalMetadata entry)

/-- `GetLastConfigIndexFromBlock`, of the bytes of a block. -/
def getLastConfigIndexFromBlock (blockBytes : List UInt8) : Except Failure UInt64 := do
  let md ← getMetadataFromBlock proto (proto.unmarshalBlock blockBytes) lastConfigIndex
  fromProto (proto.unmarshalLastConfig md)

/-- The bytes that are returned, a nil slice or one that is not nil, with the
    error; `none` is a panic. -/
abbrev Returned := Option (Option (List UInt8) × GoError)

/-- `return nil, err` for what fails with an error. -/
def orReturn {α : Type} (step : Except Failure α) (next : α → Returned) : Returned :=
  match step with
  | .ok a => next a
  | .error (.error err) => some (none, some err)
  | .error .panic => none

/-- From the newest block on. -/
def configBlockOf (ledgerClient : LedgerClient) (currentBlock : Block) : Returned :=
  match currentBlock.metadata with
  -- `return nil, err`, with the nil error of the query
  | none => some (none, none)
  | some _ =>
      orReturn (fromProto (proto.marshal (some currentBlock))) fun b =>
      orReturn (getLastConfigIndexFromBlock proto b) fun lc =>
      -- the error of this query is only logged
      orReturn (fromProto (proto.marshal (ledgerClient.queryBlock lc).1)) fun b =>
      some (some b, none)

/-- `QueryChannelConfigBlock` -/
def queryChannelConfigBlock (ledgerClient : LedgerClient) : Returned :=
  match ledgerClient.queryInfo.2, ledgerClient.queryInfo.1.bind (·.bci) with
  | some err, _ => some (none, some err)
  | none, none => none
  | none, some bci =>
      let answer := ledgerClient.queryBlockByHash bci.currentBlockHash
      match answer.2, answer.1 with
      | some err, _ => some (none, some err)
      | none, none => none
      | none, some currentBlock => configBlockOf proto ledgerClient currentBlock

/-! ## What is to be returned -/

/-- The newest block, as the client has it. -/
def IsNewest (ledgerClient : LedgerClient) (newest : Block) : Prop :=
  ∃ info bci, ledgerClient.queryInfo.1 = some info ∧ info.bci = some bci ∧
    (ledgerClient.queryBlockByHash bci.currentBlockHash).1 = some newest

/-- The index of the last config in the metadata of a block. -/
def NamesLastConfig (newest : Block) (n : UInt64) : Prop :=
  ∃ metadata entry md, newest.metadata = some metadata ∧
    metadata[lastConfigIndex]? = some entry ∧ proto.unmarshalMetadata entry = .ok md ∧
    proto.unmarshalLastConfig md = .ok n

/-- An error, or the block that the newest one names, marshalled. -/
def ConfigOrError (ledgerClient : LedgerClient) : Returned → Prop
  | none => False
  | some (_, some _) => True
  | some (none, none) => False
  | some (some bytes, none) => ∃ newest n block, IsNewest ledgerClient newest ∧
      NamesLastConfig proto newest n ∧ (ledgerClient.queryBlock n).1 = some block ∧
      block.number = n ∧ proto.marshal (some block) = .ok bytes

/-- What is answered without an error is there, and the newest block has
    metadata, with an entry for the last config if it can be marshalled. -/
structure Complete (ledgerClient : LedgerClient) : Prop where
  info : ledgerClient.queryInfo.2 = none →
    ∃ bci, ledgerClient.queryInfo.1.bind (·.bci) = some bci
  newest : ∀ bci, ledgerClient.queryInfo.2 = none →
    ledgerClient.queryInfo.1.bind (·.bci) = some bci →
    (ledgerClient.queryBlockByHash bci.currentBlockHash).2 = none →
    ∃ newest metadata, (ledgerClient.queryBlockByHash bci.currentBlockHash).1 = some newest ∧
      newest.metadata = some metadata ∧
      ∀ bytes, proto.marshal (some newest) = .ok bytes → lastConfigIndex < metadata.length

/-! ## The index of the last config -/

section Index

variable {proto} {newest : Block} {metadata : List (List UInt8)} {bytes : List UInt8}

/-- The index is read from the metadata of the block that was marshalled. -/
theorem getLastConfigIndexFromBlock_eq (hproto : proto.Documented)
    (hmetadata : newest.metadata = some metadata)
    (hbytes : proto.marshal (some newest) = .ok bytes) :
    getLastConfigIndexFromBlock proto bytes = (do
      let entry ← orPanic metadata[lastConfigIndex]?
      let md ← fromProto (proto.unmarshalMetadata entry)
      fromProto (proto.unmarshalLastConfig md)) := by
  have hback := hproto.metadata_back newest bytes hbytes
  rw [hmetadata] at hback
  rw [getLastConfigIndexFromBlock, getMetadataFromBlock, hback]
  exact bind_assoc (orPanic metadata[lastConfigIndex]?) _ _

/-- A short list of metadata is a panic. -/
theorem getLastConfigIndexFromBlock_short (hproto : proto.Documented)
    (hmetadata : newest.metadata = some metadata)
    (hbytes : proto.marshal (some newest) = .ok bytes)
    (hshort : ¬ lastConfigIndex < metadata.length) :
    getLastConfigIndexFromBlock proto bytes = .error .panic := by
  have hnone : metadata[lastConfigIndex]? = none := List.getElem?_eq_none (not_lt.mp hshort)
  rw [getLastConfigIndexFromBlock_eq hproto hmetadata hbytes, hnone]
  rfl

/-- Otherwise the index is read, or what cannot be unmarshalled is an error. -/
theorem getLastConfigIndexFromBlock_full (hproto : proto.Documented)
    (hmetadata : newest.metadata = some metadata)
    (hbytes : proto.marshal (some newest) = .ok bytes)
    (hfull : lastConfigIndex < metadata.length) :
    (∃ n, getLastConfigIndexFromBlock proto bytes = .ok n ∧ NamesLastConfig proto newest n) ∨
      ∃ err, getLastConfigIndexFromBlock proto bytes = .error (.error err) := by
  have hentry : metadata[lastConfigIndex]? = some metadata[lastConfigIndex] :=
    List.getElem?_eq_getElem hfull
  rw [getLastConfigIndexFromBlock_eq hproto hmetadata hbytes, hentry]
  cases hmd : proto.unmarshalMetadata metadata[lastConfigIndex] with
  | error err =>
      refine Or.inr ⟨err, ?_⟩
      simp only [orPanic, bind, Except.bind, hmd, fromProto]
  | ok md =>
      cases hn : proto.unmarshalLastConfig md with
      | error err =>
          refine Or.inr ⟨err, ?_⟩
          simp only [orPanic, bind, Except.bind, hmd, hn, fromProto]
      | ok n =>
          refine Or.inl ⟨n, ?_, metadata, metadata[lastConfigIndex], md, hmetadata, hentry, hmd, hn⟩
          simp only [orPanic, bind, Except.bind, hmd, hn, fromProto]

end Index

/-! ## The block that is returned -/

theorem configBlockOf_iff {ledgerClient : LedgerClient} {newest : Block}
    (hproto : proto.Documented) (hclient : ledgerClient.Numbered)
    (hnewest : IsNewest ledgerClient newest) :
    ConfigOrError proto ledgerClient (configBlockOf proto ledgerClient newest) ↔
      ∃ metadata, newest.metadata = some metadata ∧
        ∀ bytes, proto.marshal (some newest) = .ok bytes → lastConfigIndex < metadata.length := by
  unfold configBlockOf
  cases hmetadata : newest.metadata with
  | none =>
      -- a block without metadata is neither an error nor the config block
      refine iff_of_false id ?_
      rintro ⟨metadata, h, -⟩
      cases h
  | some metadata =>
      simp only [Option.some.injEq, exists_eq_left']
      cases hbytes : proto.marshal (some newest) with
      | error err =>
          refine iff_of_true trivial fun bytes h => ?_
          cases h
      | ok bytes =>
          simp only [fromProto, orReturn, Except.ok.injEq, forall_eq']
          -- short metadata panics where the index is read
          by_cases hfull : lastConfigIndex < metadata.length
          · refine iff_of_true ?_ hfull
            rcases getLastConfigIndexFromBlock_full hproto hmetadata hbytes hfull with
              ⟨n, hn, hnames⟩ | ⟨err, herr⟩
            · simp only [hn]
              cases hblock : (ledgerClient.queryBlock n).1 with
              | none =>
                  -- a block that is nil is marshalled, with an error
                  obtain ⟨err, hnil⟩ := hproto.marshal_nil
                  simp only [hnil]
                  trivial
              | some block =>
                  cases hlast : proto.marshal (some block) with
                  | error err => trivial
                  | ok last =>
                      exact ⟨newest, n, block, hnewest, hnames, hblock, hclient n block hblock,
                        hlast⟩
            · simp only [herr]
              trivial
          · refine iff_of_false ?_ hfull
            simp only [getLastConfigIndexFromBlock_short hproto hmetadata hbytes hfull]
            exact id

/-- **When the config block is returned.**  Whatever the client answers, the
    result is an error or the block that the newest one names exactly if the
    answers without an error are complete. -/
theorem queryChannelConfigBlock_iff (hproto : proto.Documented) {ledgerClient : LedgerClient}
    (hclient : ledgerClient.Numbered) :
    ConfigOrError proto ledgerClient (queryChannelConfigBlock proto ledgerClient) ↔
      Complete proto ledgerClient := by
  unfold queryChannelConfigBlock
  cases herr : ledgerClient.queryInfo.2 with
  -- an error is returned as it is
  | some err =>
      refine iff_of_true trivial ⟨fun h => ?_, fun bci h => ?_⟩
      · cases herr.symm.trans h
      · cases herr.symm.trans h
  | none =>
      cases hbci : ledgerClient.queryInfo.1.bind (·.bci) with
      | none =>
          -- no error and no block: `ledgerInfo.BCI` panics
          refine iff_of_false id fun h => ?_
          obtain ⟨bci, hsome⟩ := h.info herr
          cases hbci.symm.trans hsome
      | some bci =>
          simp only
          have hinfo : ledgerClient.queryInfo.2 = none →
              ∃ bci, ledgerClient.queryInfo.1.bind (·.bci) = some bci := fun _ => ⟨bci, hbci⟩
          obtain ⟨info, hsome, hinfobci⟩ := Option.bind_eq_some_iff.mp hbci
          cases herr' : (ledgerClient.queryBlockByHash bci.currentBlockHash).2 with
          | some err =>
              refine iff_of_true trivial ⟨hinfo, fun bci' _ hbci' h => ?_⟩
              cases hbci.symm.trans hbci'
              cases herr'.symm.trans h
          | none =>
              cases hblock : (ledgerClient.queryBlockByHash bci.currentBlockHash).1 with
              | none =>
                  refine iff_of_false id fun h => ?_
                  obtain ⟨newest, metadata, hnewest, -⟩ := h.newest bci herr hbci herr'
                  cases hblock.symm.trans hnewest
              | some newest =>
                  -- the rest depends on the metadata of the newest block
                  refine (configBlockOf_iff proto hproto hclient
                    ⟨info, bci, hsome, hinfobci, hblock⟩).trans ?_
                  constructor
                  · rintro ⟨metadata, hmetadata, hlen⟩
                    refine ⟨hinfo, fun bci' _ hbci' _ => ?_⟩
                    cases hbci.symm.trans hbci'
                    exact ⟨newest, metadata, hblock, hmetadata, hlen⟩
                  · intro h
                    obtain ⟨newest', metadata, hnewest, hmetadata, hlen⟩ :=
                      h.newest bci herr hbci herr'
                    cases hblock.symm.trans hnewest
                    exact ⟨metadata, hmetadata, hlen⟩

/-! ## A channel of two blocks -/

/-- Block 1, which holds the config. -/
def configBlock : Block := ⟨some ⟨1, [], []⟩, none, none⟩

/-- Block 2 with the given metadata. -/
def newestBlock (metadata : Option (List (List UInt8))) : Block :=
  ⟨some ⟨2, [], []⟩, none, metadata⟩

/-- No signatures, and a last config at index 1. -/
def fullMetadata : List (List UInt8) := [[], [0x0A, 2, 8, 1]]

/-- The wire format of these blocks. -/
def wireFormat : Proto where
  marshal
    | none => .error "proto: Marshal called with nil"
    | some block =>
        if block = configBlock then .ok [0x0A, 2, 8, 1]
        else if block = newestBlock (some []) then .ok [0x0A, 2, 8, 2, 0x1A, 0]
        else if block = newestBlock (some fullMetadata) then
          .ok [0x0A, 2, 8, 2, 0x1A, 8, 0x0A, 0, 0x0A, 4, 0x0A, 2, 8, 1]
        else .error "not marshalled here"
  unmarshalBlock bytes :=
    if bytes = [0x0A, 2, 8, 1] then configBlock
    else if bytes = [0x0A, 2, 8, 2, 0x1A, 0] then newestBlock (some [])
    else newestBlock (some fullMetadata)
  unmarshalMetadata bytes := if bytes = [0x0A, 2, 8, 1] then .ok [8, 1] else .error "unexpected EOF"
  unmarshalLastConfig bytes := if bytes = [8, 1] then .ok 1 else .error "unexpected EOF"

theorem wireFormat_documented : wireFormat.Documented where
  marshal_nil := ⟨_, rfl⟩
  metadata_back block bytes h := by
    simp only [wireFormat] at h
    split at h
    · next hblock =>
        cases h
        rw [hblock]
        decide
    · split at h
      · next hblock =>
          cases h
          rw [hblock]
          decide
      · split at h
        · next hblock =>
            cases h
            rw [hblock]
            decide
        · cases h

/-- The client of the channel, whose newest block has the metadata. -/
def twoBlocks (metadata : Option (List (List UInt8))) : LedgerClient where
  queryInfo := (some ⟨some ⟨[2]⟩⟩, none)
  queryBlockByHash _ := (some (newestBlock metadata), none)
  queryBlock n :=
    if n = 1 then (some configBlock, none)
    else if n = 2 then (some (newestBlock metadata), none)
    else (none, some "Failed to QueryBlock")

theorem twoBlocks_numbered (metadata : Option (List (List UInt8))) :
    (twoBlocks metadata).Numbered := by
  intro n block h
  simp only [twoBlocks] at h
  split at h
  · next hn =>
      cases h
      exact hn.symm
  · split at h
    · next hn =>
        cases h
        exact hn.symm
    · cases h

/-- Block 1 is returned. -/
theorem queryChannelConfigBlock_iff_full :
    queryChannelConfigBlock wireFormat (twoBlocks (some fullMetadata)) =
        some (some [0x0A, 2, 8, 1], none) ∧
      ConfigOrError wireFormat (twoBlocks (some fullMetadata))
        (queryChannelConfigBlock wireFormat (twoBlocks (some fullMetadata))) := by
  refine ⟨by decide, ?_⟩
  refine (queryChannelConfigBlock_iff wireFormat wireFormat_documented
    (twoBlocks_numbered (some fullMetadata))).mpr ⟨fun _ => ⟨_, rfl⟩, fun bci _ _ _ => ?_⟩
  exact ⟨_, _, rfl, rfl, fun _ _ => by decide⟩

/-- A newest block without metadata gives nil bytes with a nil error, and one
    with an empty list of metadata panics. -/
theorem config_block_missing :
    wireFormat.Documented ∧ (twoBlocks none).Numbered ∧ (twoBlocks (some [])).Numbered ∧
      queryChannelConfigBlock wireFormat (twoBlocks none) = some (none, none) ∧
      queryChannelConfigBlock wireFormat (twoBlocks (some [])) = none ∧
      ¬ ConfigOrError wireFormat (twoBlocks none)
        (queryChannelConfigBlock wireFormat (twoBlocks none)) ∧
      ¬ ConfigOrError wireFormat (twoBlocks (some []))
        (queryChannelConfigBlock wireFormat (twoBlocks (some []))) := by
  have hnil : queryChannelConfigBlock wireFormat (twoBlocks none) = some (none, none) := by decide
  have hpanic : queryChannelConfigBlock wireFormat (twoBlocks (some [])) = none := by decide
  refine ⟨wireFormat_documented, twoBlocks_numbered _, twoBlocks_numbered _, hnil, hpanic, ?_, ?_⟩
  · rw [hnil]
    exact id
  · rw [hpanic]
    exact id

end Hfrd.Channel
