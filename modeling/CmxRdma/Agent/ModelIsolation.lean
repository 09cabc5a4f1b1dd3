import CmxRdma.Agent.Retention
import CmxRdma.Client.Hashing

/-!
Contract: requests under different models use different index entries.

Owns: when two composite keys are equal, what a Store under one key does to the
entry of another, and that the answers to Lookup and Get depend on no entry but
their own.

Does not own: Delete, which takes the raw prefix hash for its key; the bytes of the
blocks behind an entry, see `Ownership`.
-/

namespace CmxRdma.Agent

open CmxRdma.BlockStore
open CmxRdma.Client
open CmxRdma.Memory
open CmxRdma.Proto

/-! ## Composite keys -/

/-- The string hashed for a request, if one is. -/
def hashedString (modelId : String) (prefixHash : PrefixHash) : List (List UInt8) :=
  if modelId = "" then [] else [utf8 modelId ++ prefixHash.toBytes]

/-- A raw prefix hash, sent without a model, is the digest of another request. -/
def Impersonates (platform : Platform) (rawModel : String) (rawHash : PrefixHash)
    (modelId : String) (prefixHash : PrefixHash) : Prop :=
  rawModel = "" ∧ modelId ≠ "" ∧
    rawHash = platform.sha256Truncated (utf8 modelId ++ prefixHash.toBytes)

instance (platform : Platform) (rawModel : String) (rawHash : PrefixHash) (modelId : String)
    (prefixHash : PrefixHash) :
    Decidable (Impersonates platform rawModel rawHash modelId prefixHash) :=
  inferInstanceAs (Decidable (_ ∧ _ ∧ _))

theorem compositeKey_of_ne_empty {modelId : String} (named : modelId ≠ "") (platform : Platform)
    (prefixHash : PrefixHash) :
    compositeKey platform modelId prefixHash =
      platform.sha256Truncated (utf8 modelId ++ prefixHash.toBytes) := by
  have notEmpty : modelId.isEmpty = false := by simpa using named
  rw [compositeKey, notEmpty]
  rfl

/-- The sixteen bytes at the end tell where the model id ends. -/
theorem append_toBytes_inj {left right : String} {leftHash rightHash : PrefixHash}
    (same : utf8 left ++ leftHash.toBytes = utf8 right ++ rightHash.toBytes) :
    left = right ∧ leftHash = rightHash := by
  obtain ⟨sameModel, sameHash⟩ := List.append_inj' same (by simp)
  exact ⟨utf8_injective sameModel, PrefixHash.toBytes_injective sameHash⟩

/-- Two requests share an index entry exactly when they agree, or one of them has no
model and its prefix hash is the digest of the other. -/
theorem compositeKey_eq_iff {platform : Platform} {left right : String}
    {leftHash rightHash : PrefixHash}
    (collisionFree : CollisionFree platform
      (hashedString left leftHash ++ hashedString right rightHash)) :
    compositeKey platform left leftHash = compositeKey platform right rightHash ↔
      left = right ∧ leftHash = rightHash ∨
        Impersonates platform left leftHash right rightHash ∨
        Impersonates platform right rightHash left leftHash := by
  by_cases leftEmpty : left = ""
  · subst leftEmpty
    by_cases rightEmpty : right = ""
    · subst rightEmpty
      simp [compositeKey_empty, Impersonates]
    · simp [compositeKey_empty, compositeKey_of_ne_empty rightEmpty, Impersonates, rightEmpty,
        Ne.symm rightEmpty]
  · by_cases rightEmpty : right = ""
    · subst rightEmpty
      simp [compositeKey_empty, compositeKey_of_ne_empty leftEmpty, Impersonates, leftEmpty,
        eq_comm]
    · rw [compositeKey_of_ne_empty leftEmpty, compositeKey_of_ne_empty rightEmpty]
      simp only [Impersonates, leftEmpty, rightEmpty, false_and, or_false]
      constructor
      · intro sameDigest
        simp only [hashedString, if_neg leftEmpty, if_neg rightEmpty] at collisionFree
        exact append_toBytes_inj (collisionFree _ (by simp) _ (by simp) sameDigest)
      · rintro ⟨rfl, rfl⟩
        rfl

/-! ## Entries of other keys -/

namespace CacheService

/-- A Store leaves the entry of any other key as it was, unless it evicts it. -/
theorem lookup_index_store {platform : Platform} {service : CacheService}
    {stream rest : StoreStream}
    {header : StoreHeader} {prefixHash key : PrefixHash}
    (read : readHeader stream = .ok (header, rest))
    (parsed : parsePrefixHash header.prefixHash = .ok prefixHash)
    (other : key ≠ compositeKey platform header.modelId prefixHash) (now : UInt64) :
    (service.store platform now stream).1.index.map.lookup key = service.index.map.lookup key ∨
      (service.store platform now stream).1.index.map.lookup key = none := by
  cases admitted : service.storeAdmit platform stream with
  | error failure =>
      rw [store_of_not_admitted admitted]
      exact Or.inl rfl
  | ok pair =>
      obtain ⟨stored, data⟩ := pair
      obtain ⟨header', rest', prefixHash', read', parsed', -, -, rfl⟩ := storeAdmit_eq_ok admitted
      rw [read] at read'
      cases read'
      rw [parsed] at parsed'
      cases parsed'
      rcases outcome : service.allocator.allocateAndWrite platform data with
        ⟨allocator, panic | refused | ⟨location, handle⟩⟩
      · rw [store_of_panic admitted outcome]
        exact Or.inl rfl
      · rw [store_of_refused admitted outcome]
        exact Or.inl rfl
      · rw [store_of_written admitted outcome]
        show (service.index.insert _ _ _).1.map.lookup key = _ ∨
          (service.index.insert _ _ _).1.map.lookup key = _
        rw [BlockIndex.lookup_insert, if_neg other]
        split_ifs
        · exact Or.inr rfl
        · exact Or.inl rfl

end CacheService

/-- Two services that differ at most in the entry of one key. -/
structure AgreeExceptAt (key : PrefixHash) (left right : CacheService) : Prop where
  allocator : left.allocator = right.allocator
  nodeId : left.nodeId = right.nodeId
  remoteIndex : left.remoteIndex = right.remoteIndex
  entries : ∀ other, other ≠ key → left.index.map.lookup other = right.index.map.lookup other

/-- Lookup and Get read no entry but their own. -/
theorem AgreeExceptAt.answers {platform : Platform} {key : PrefixHash}
    {left right : CacheService} (agree : AgreeExceptAt key left right) {modelId : String}
    {prefixHash : PrefixHash} (other : compositeKey platform modelId prefixHash ≠ key) :
    (left.lookup platform ⟨prefixHash.toBytes, modelId⟩).2 =
        (right.lookup platform ⟨prefixHash.toBytes, modelId⟩).2 ∧
      (left.get platform ⟨prefixHash.toBytes, modelId⟩).2 =
        (right.get platform ⟨prefixHash.toBytes, modelId⟩).2 := by
  have sameShown : left.protoLocation = right.protoLocation := by
    funext location
    rw [CacheService.protoLocation, CacheService.protoLocation, agree.nodeId]
  constructor
  · rw [CacheService.lookup_answer, CacheService.lookup_answer, agree.entries _ other, sameShown,
      CacheService.remoteFirst, CacheService.remoteFirst, agree.remoteIndex]
  · rw [CacheService.get_answer, CacheService.get_answer, agree.entries _ other, agree.allocator]

/-- Two different requests have different index entries, as long as the truncated
digest does not collide on their strings, unless one has no model and sends the
digest of the other as its prefix hash. A Store of the one then changes the entry of
the other at most by evicting it, and no answer to a Lookup or Get of the other
depends on the entry of the first. -/
theorem models_isolated (platform : Platform) (left right : String)
    (leftHash rightHash : PrefixHash)
    (collisionFree : CollisionFree platform
      (hashedString left leftHash ++ hashedString right rightHash)) :
    (compositeKey platform left leftHash = compositeKey platform right rightHash ↔
      left = right ∧ leftHash = rightHash ∨
        Impersonates platform left leftHash right rightHash ∨
        Impersonates platform right rightHash left leftHash) ∧
    (compositeKey platform left leftHash ≠ compositeKey platform right rightHash →
      (∀ (service : CacheService) (now : UInt64) (stream rest : StoreStream) (totalSize : UInt64),
        CacheService.readHeader stream = .ok (⟨leftHash.toBytes, totalSize, left⟩, rest) →
        let entry := service.index.map.lookup (compositeKey platform right rightHash)
        let entryAfter := (service.store platform now stream).1.index.map.lookup
          (compositeKey platform right rightHash)
        entryAfter = entry ∨ entryAfter = none) ∧
      ∀ first second : CacheService,
        AgreeExceptAt (compositeKey platform left leftHash) first second →
        (first.lookup platform ⟨rightHash.toBytes, right⟩).2 =
            (second.lookup platform ⟨rightHash.toBytes, right⟩).2 ∧
          (first.get platform ⟨rightHash.toBytes, right⟩).2 =
            (second.get platform ⟨rightHash.toBytes, right⟩).2) := by
  refine ⟨compositeKey_eq_iff collisionFree, ?_⟩
  intro different
  constructor
  · intro service now stream rest totalSize read
    exact CacheService.lookup_index_store read (parsePrefixHash_toBytes leftHash) different.symm now
  · intro first second agree
    exact agree.answers different.symm

/-- A request without a model reaches the entry of a model, by sending its digest: the
Lookup of the model finds what was stored without one. -/
theorem raw_hash_reaches_model :
    let raw := Platform.release.sha256Truncated (utf8 "m" ++ (PrefixHash.ofByte 1).toBytes)
    let service := CacheService.new Geometry.twoBlocks 2 "node" false none
    let stored := (service.store Platform.release 0
      (storeMessages ⟨raw.toBytes, 1, ""⟩ [[7]])).1
    compositeKey Platform.release "" raw = compositeKey Platform.release "m" (.ofByte 1) ∧
      (service.lookup Platform.release ⟨(PrefixHash.ofByte 1).toBytes, "m"⟩).2 =
        .ok ⟨false, [], false⟩ ∧
      (stored.lookup Platform.release ⟨(PrefixHash.ofByte 1).toBytes, "m"⟩).2 =
        .ok ⟨true, [⟨"node", 32, 32, 1⟩], true⟩ := by
  decide +kernel

/-- Two models that use the same prefix hash. -/
theorem models_isolated_of_same_hash :
    let hash := PrefixHash.ofByte 1
    CollisionFree Platform.release (hashedString "m" hash ++ hashedString "n" hash) ∧
      compositeKey Platform.release "m" hash ≠ compositeKey Platform.release "n" hash := by
  intro hash
  have collisionFree :
      CollisionFree Platform.release (hashedString "m" hash ++ hashedString "n" hash) := by
    decide +kernel
  refine ⟨collisionFree, ?_⟩
  rw [Ne, (models_isolated Platform.release "m" "n" hash hash collisionFree).1]
  decide

end CmxRdma.Agent
