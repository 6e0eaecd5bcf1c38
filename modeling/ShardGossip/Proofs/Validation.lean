import Mathlib.Data.List.TakeWhile
import Mathlib.Logic.Unique
import ShardGossip.Node
import ShardGossip.Proofs.Store
import ShardGossip.Proofs.Utf8

/-!
# ShardGossip.Proofs.Validation

**A node is made of the valid configurations and of no others** (`Node.made_of_valid`). What makes a
configuration valid is said here without the order in which it is looked through
(`NodeConfig.Valid`). Each check comes down to one part of that: the scan of the peers with the ids
that it has seen to distinct ids (`checkPeers_eq_ok`), and the parser of the seed, which works on
bytes, to sixty-four digits in the trimmed text (`SigningKey.exists_seed_iff`). The signing key is
read from the seed a second time, by the same parser, so it is there once the seed has passed.
-/

namespace ShardGossip

/-! ### White space -/

namespace Text

theorem trimChars_eq_nil {chars : List Char} : trimChars chars = [] ↔ ∀ c ∈ chars, isBlank c := by
  rw [trimChars, List.reverse_eq_nil_iff, List.dropWhile_eq_nil_iff]
  refine ⟨fun h => ?_, fun h => ?_⟩
  · -- A character that stops the first trimming would stop the second one too.
    cases hd : chars.dropWhile isBlank with
    | nil => exact List.dropWhile_eq_nil_iff.mp hd
    | cons c rest =>
        have hblank := h c (by simp [hd])
        have hstop := List.head_dropWhile_not isBlank (l := chars) (by simp [hd])
        simp [hd, hblank] at hstop
  · have hnil := List.dropWhile_eq_nil_iff.mpr h
    simp [hnil]

theorem isBlankText_eq_false {text : String} : isBlankText text = false ↔ trim text ≠ "" := by
  have hempty : trim text = "" ↔ isBlankText text = true := by
    rw [trim, isBlankText, List.all_eq_true, ← trimChars_eq_nil, ← String.ofList_nil,
      String.ofList_inj]
  rw [ne_eq, hempty, Bool.not_eq_true]

end Text

/-! ### Hexadecimal text -/

namespace Hex

/-- The hexadecimal digits of both cases. -/
def digits : List Char := "0123456789abcdefABCDEF".toList

/-- A hexadecimal digit of either case. -/
def IsDigit (c : Char) : Prop := c ∈ digits

instance (c : Char) : Decidable (IsDigit c) := inferInstanceAs (Decidable (c ∈ digits))

theorem length_encodeChar {c : Char} (h : IsDigit c) : (String.utf8EncodeChar c).length = 1 := by
  have hall : digits.all fun c => (String.utf8EncodeChar c).length = 1 := by decide
  exact of_decide_eq_true (List.all_eq_true.mp hall c h)

theorem isDigit_of_value : ∀ n < 256, (value? (UInt8.ofNat n)).isSome → IsDigit (Char.ofNat n) := by
  decide +kernel

theorem isDigit_iff {c : Char} :
    IsDigit c ↔ ∀ byte ∈ String.utf8EncodeChar c, (value? byte).isSome := by
  constructor
  · intro h byte hbyte
    have hall : digits.all fun c =>
        (String.utf8EncodeChar c).all fun byte => (value? byte).isSome := by decide
    exact List.all_eq_true.mp (List.all_eq_true.mp hall c h) byte hbyte
  · intro h
    obtain ⟨byte, hbyte⟩ := List.exists_mem_of_ne_nil _ (String.utf8EncodeChar_ne_nil (c := c))
    have hvalue := h byte hbyte
    rcases (Utf8.sequence_encodeChar c).mem hbyte with hlong | rfl
    · simp only [value?] at hvalue
      grind
    · exact isDigit_of_value byte.toNat byte.toNat_lt (by rwa [UInt8.ofNat_toNat])

variable {text bytes before : Bytes} {position n : Nat}

/-- Pairs of digits are read, and nothing else is. -/
theorem exists_decodePairs : (∃ bytes, decodePairs position before text = .ok bytes) ↔
    text.length % 2 = 0 ∧ ∀ byte ∈ text, (value? byte).isSome := by
  fun_induction decodePairs position before text with
  | case1 => simp
  | case2 => simp
  | case3 position before high low rest hhigh => simp [hhigh]
  | case4 position before high low rest h hlow hhigh => simp [hhigh, hlow]
  | case5 position before high low rest h l hlow hhigh ih =>
      rw [ih]
      simp [hlow, hhigh, Nat.add_assoc]

theorem length_decodePairs (h : decodePairs position before text = .ok bytes) :
    2 * bytes.length = 2 * before.length + text.length := by
  fun_induction decodePairs position before text with
  | case1 =>
      cases h
      simp
  | case5 position before high low rest _ _ _ _ ih =>
      have hlength := ih h
      simp only [List.length_cons] at hlength ⊢
      omega
  | _ => cases h

theorem exists_decode : (∃ bytes, decode text = .ok bytes ∧ bytes.length = n) ↔
    text.length = 2 * n ∧ ∀ byte ∈ text, (value? byte).isSome := by
  simp only [decode]
  split
  case isTrue heven =>
    constructor
    · rintro ⟨bytes, hok, rfl⟩
      have hlength := length_decodePairs hok
      exact ⟨by simpa using hlength.symm, (exists_decodePairs.mp ⟨bytes, hok⟩).2⟩
    · rintro ⟨htext, hdigits⟩
      obtain ⟨bytes, hok⟩ : ∃ bytes, decodePairs 0 [] text = .ok bytes :=
        exists_decodePairs.mpr ⟨heven, hdigits⟩
      have hlength := length_decodePairs hok
      simp only [List.length_nil] at hlength
      exact ⟨bytes, hok, by omega⟩
  case isFalse hodd =>
    constructor
    · rintro ⟨bytes, hok, -⟩
      cases hok
    · rintro ⟨htext, -⟩
      omega

/-- A text of digits takes one byte for each of them. -/
theorem encode_digits {chars : List Char} :
    (chars.flatMap String.utf8EncodeChar).length = n ∧
        (∀ byte ∈ chars.flatMap String.utf8EncodeChar, (value? byte).isSome) ↔
      chars.length = n ∧ ∀ c ∈ chars, IsDigit c := by
  have hdigits : (∀ byte ∈ chars.flatMap String.utf8EncodeChar, (value? byte).isSome) ↔
      ∀ c ∈ chars, IsDigit c := by
    simp only [isDigit_iff, List.mem_flatMap, forall_exists_index, and_imp]
    exact ⟨fun h c hc byte hbyte => h byte c hc hbyte, fun h byte c hc hbyte => h c hc byte hbyte⟩
  have hlength (h : ∀ c ∈ chars, IsDigit c) :
      (chars.flatMap String.utf8EncodeChar).length = chars.length := by
    rw [List.length_flatMap, List.map_congr_left fun c hc => length_encodeChar (h c hc)]
    simp
  rw [hdigits]
  exact and_congr_left fun h => by rw [hlength h]

end Hex

/-! ### Seeds -/

namespace SigningKey

/-- The text of a seed: sixty-four hexadecimal digits, white space at its ends aside. -/
def IsSeed (text : String) : Prop :=
  (Text.trim text).length = 64 ∧ ∀ c ∈ (Text.trim text).toList, Hex.IsDigit c

instance (text : String) : Decidable (IsSeed text) :=
  decidable_of_iff ((Text.trim text).length = 64 ∧ (Text.trim text).toList.all (Hex.IsDigit ·))
    (by simp [IsSeed])

theorem exists_seed_iff {text : String} :
    (∃ seed, seedOfText text = .ok seed) ↔ IsSeed text := by
  have hdecode : (∃ seed, seedOfText text = .ok seed) ↔
      ∃ bytes, Hex.decode (Utf8.encode (Text.trim text)) = .ok bytes ∧
        bytes.length = seedLength := by
    simp only [seedOfText]
    cases Hex.decode (Utf8.encode (Text.trim text)) with
    | error fault => simp
    | ok bytes => by_cases hlength : bytes.length = seedLength <;> simp [hlength]
  rw [hdecode, Hex.exists_decode, Utf8.encode, Hex.encode_digits]
  rfl

/-- Digits of both cases, and blanks that are not ASCII around them. -/
example :
    let digits := String.ofList (List.replicate 32 'a' ++ List.replicate 32 'F')
    IsSeed ("\u2003" ++ digits ++ "\n") := by decide +kernel

end SigningKey

/-! ### Configurations -/

namespace NodeConfig

variable {c : NodeConfig}

/-- Peers pass when each has an id and an address, none is the node itself, and none is listed
twice. -/
theorem checkPeers_eq_ok {localId : NodeId} {index : Nat} {seen : List NodeId}
    {peers : List PeerConfig} :
    checkPeers localId index seen peers = .ok () ↔
      (∀ peer ∈ peers, peer.id.name ≠ "" ∧ peer.address ≠ "") ∧
        (localId :: peers.map (·.id)).Nodup ∧ ∀ peer ∈ peers, peer.id ∉ seen := by
  induction peers generalizing index seen with
  | nil => simp [checkPeers]
  | cons peer rest ih =>
      simp only [checkPeers]
      split
      case isTrue hempty =>
        simp only [String.isEmpty_iff] at hempty
        grind
      case isFalse hfilled =>
        split
        case isTrue h => simp [h]
        case isFalse hlocal =>
          split
          case isTrue h => simp [h]
          case isFalse hseen =>
            rw [ih]
            simp only [String.isEmpty_iff, not_or] at hfilled
            simp only [List.map_cons, List.nodup_cons, List.mem_cons, not_or, List.mem_map,
              not_exists, not_and]
            grind

/-- What is looked for first must not be there. -/
theorem unless_eq_ok {p : Prop} [Decidable p] {e : ConfigError}
    {rest : Unit → Except ConfigError Unit} :
    (if p then Except.error e >>= rest else rest ()) = .ok () ↔ ¬p ∧ rest () = .ok () := by
  split
  case isTrue h => exact ⟨nofun, fun hn => absurd h hn.1⟩
  case isFalse h => exact (and_iff_right h).symm

theorem validate_eq_ok :
    c.validate = .ok () ↔ Text.isBlankText c.nodeId.name = false ∧
      Text.isBlankText c.listenAddr = false ∧ checkPeers c.nodeId 0 [] c.peers = .ok () ∧
      checkPositive c.positiveSettings = .ok () ∧
      c.sharding.mergeThreshold < c.sharding.splitThreshold ∧
      checkSeed c.signingSeed = .ok () := by
  simp [validate, unless_eq_ok, bind_eq_ok, Unique.exists_iff]

/-- A seed that passes makes a key. -/
theorem signingKey_of_checkSeed (h : checkSeed c.signingSeed = .ok ()) :
    ∃ key, c.signingKey = .ok key := by
  simp only [signingKey]
  cases hs : c.signingSeed with
  | none => exact ⟨_, rfl⟩
  | some seed =>
      simp only [checkSeed, hs] at h
      simp only [SigningKey.ofText]
      split at h
      case h_1 key hk => exact ⟨_, by rw [hk]; rfl⟩
      case h_2 => cases h

/-- What a configuration that a node can be run with has to be like. -/
structure Valid (c : NodeConfig) : Prop where
  nodeId : Text.trim c.nodeId.name ≠ ""
  listenAddr : Text.trim c.listenAddr ≠ ""
  complete : ∀ peer ∈ c.peers, peer.id.name ≠ "" ∧ peer.address ≠ ""
  distinct : (c.peers.map (·.id)).Nodup
  /-- The node is not its own peer. -/
  foreign : ∀ peer ∈ c.peers, peer.id ≠ c.nodeId
  tick : 0 < c.chain.tickMs
  roundTimeout : 0 < c.chain.roundTimeoutMs
  frame : 0 < c.chain.maxFrameLen
  capacity : 0 < c.sharding.shardCapacity
  interval : 0 < c.sharding.rebalanceIntervalSecs
  /-- Merged shards are not split again at once. -/
  thresholds : c.sharding.mergeThreshold < c.sharding.splitThreshold
  seed : ∀ seed ∈ c.signingSeed, SigningKey.IsSeed seed

theorem checkPositive_eq_ok {settings : List (String × Nat)} :
    checkPositive settings = .ok () ↔ ∀ setting ∈ settings, 0 < setting.2 := by
  simp only [checkPositive]
  cases hfind : settings.find? (·.2 = 0) with
  | none => simpa [Nat.pos_iff_ne_zero] using hfind
  | some setting =>
      have hzero : setting.2 = 0 := by simpa using List.find?_some hfind
      refine iff_of_false nofun fun h => ?_
      exact absurd (h setting (List.mem_of_find?_eq_some hfind)) (by omega)

theorem checkSeed_eq_ok {seed : Option String} :
    checkSeed seed = .ok () ↔ ∀ text ∈ seed, SigningKey.IsSeed text := by
  cases seed with
  | none => simp [checkSeed]
  | some text =>
      simp only [checkSeed, Option.mem_some_iff, forall_eq', ← SigningKey.exists_seed_iff]
      cases SigningKey.seedOfText text <;> simp

theorem valid_iff : c.Valid ↔ c.validate = .ok () := by
  rw [validate_eq_ok, Text.isBlankText_eq_false, Text.isBlankText_eq_false, checkPeers_eq_ok,
    checkPositive_eq_ok, checkSeed_eq_ok]
  have hforeign : c.nodeId ∉ c.peers.map (·.id) ↔ ∀ peer ∈ c.peers, peer.id ≠ c.nodeId := by
    simp
  rw [List.nodup_cons, hforeign]
  simp only [positiveSettings, List.forall_mem_cons]
  constructor
  · intro h
    exact ⟨h.nodeId, h.listenAddr, ⟨h.complete, ⟨h.foreign, h.distinct⟩, by simp⟩,
      ⟨h.tick, h.roundTimeout, h.frame, h.capacity, h.interval, by simp⟩, h.thresholds, h.seed⟩
  · rintro ⟨hid, haddr, ⟨hcomplete, ⟨hforeign, hdistinct⟩, -⟩,
      ⟨htick, htimeout, hframe, hcapacity, hinterval, -⟩, hthresholds, hseed⟩
    exact ⟨hid, haddr, hcomplete, hdistinct, hforeign, htick, htimeout, hframe, hcapacity,
      hinterval, hthresholds, hseed⟩

end NodeConfig

namespace Node

open NodeConfig

variable {c : NodeConfig}

/-- Once a configuration has passed, nothing more can go wrong. -/
theorem ofConfig_of_validate (h : c.validate = .ok ()) :
    ∃ key, c.signingKey = .ok key ∧ ∃ node, ofConfig c = .ok node := by
  obtain ⟨key, hkey⟩ := signingKey_of_checkSeed (validate_eq_ok.mp h).2.2.2.2.2
  exact ⟨key, hkey, _, by rw [ofConfig, h, hkey]; rfl⟩

/-- **A node is made of the valid configurations and of no others.** These are the configurations
that pass validation, and of one that has passed the signing key is always there. -/
theorem made_of_valid (c : NodeConfig) :
    (c.validate = .ok () ↔ c.Valid) ∧ ((∃ node, ofConfig c = .ok node) ↔ c.Valid) ∧
      (c.validate = .ok () → ∃ key, c.signingKey = .ok key) := by
  refine ⟨valid_iff.symm, ⟨?_, fun h => ?_⟩, fun h => ?_⟩
  · rintro ⟨node, hnode⟩
    obtain ⟨_, hvalidate, -⟩ := bind_eq_ok.mp hnode
    exact valid_iff.mpr hvalidate
  · obtain ⟨-, -, hnode⟩ := ofConfig_of_validate (valid_iff.mp h)
    exact hnode
  · obtain ⟨key, hkey, -⟩ := ofConfig_of_validate h
    exact ⟨key, hkey⟩

end Node

end ShardGossip
