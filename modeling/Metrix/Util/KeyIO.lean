import Metrix.Util.StrEncodings
import Metrix.Util.Bech32
import Metrix.Util.Base58
import Metrix.Script.Standard

/-! Addresses (`key_io.cpp`): `DestinationEncoder` writes a key or script hash
as Base58Check of the chain's prefix and the hash, and a witness program as
bech32 of the chain's human-readable part, the version and the program in
5-bit groups (`ConvertBits<8, 5, true>`); `DecodeDestination` tries
Base58Check with the two prefixes, then bech32 with the regrouping back
(`ConvertBits<5, 8, false>`). The hash of the check is a parameter. -/

namespace Metrix

open BitString

/-- The members of `CChainParams` that addresses read:
`Base58Prefix(PUBKEY_ADDRESS)`, `Base58Prefix(SCRIPT_ADDRESS)`, `Bech32HRP()`. -/
structure AddressParams where
  pubkeyAddress : List UInt8
  scriptAddress : List UInt8
  bech32HRP : List UInt8
deriving DecidableEq, Repr

/-- `CMainParams`. -/
def mainAddressParams : AddressParams := ⟨[50], [85], "mc".toList.map Char.toUInt8⟩

/-- `CTestNetParams`. -/
def testNetAddressParams : AddressParams := ⟨[110], [187], "tm".toList.map Char.toUInt8⟩

/-- `CRegTestParams`, and `CUnitTestParams`, which keeps them. -/
def regTestAddressParams : AddressParams := ⟨[112], [187], "mcrt".toList.map Char.toUInt8⟩

/-- `ConvertBits<8, 5, true>` of a byte vector, pushed as `unsigned char`; with
`pad` it never returns `false`, and its result is not read. -/
def convertBits85 (bytes : List UInt8) : List UInt8 :=
  ((convertBits 8 5 true (bytes.map UInt8.toNat)).getD []).map UInt8.ofNat

/-- `bech32::Encode`, with its assertion on the human-readable part an error. -/
def bech32Encode (hrp values : List UInt8) : Except String (List UInt8) :=
  match Bech32.encode hrp values with
  | some str => .ok str
  | none => .error "assert(c < 'A' || c > 'Z')"

section Destinations

-- `Hash`, double SHA-256, of the Base58Check checksum
variable (hash256 : List UInt8 → Uint256)

/-- `DestinationEncoder`: the address of a destination, empty for none and for
a witness program `EncodeDestination` does not write. -/
def encodeDestination (params : AddressParams) : CTxDestination → Except String (List UInt8)
  | .noDestination => .ok []
  | .pkHash id => encodeBase58Check hash256 (params.pubkeyAddress ++ id)
  | .scriptHash id => encodeBase58Check hash256 (params.scriptAddress ++ id)
  | .witnessV0KeyHash id => bech32Encode params.bech32HRP (0 :: convertBits85 id)
  | .witnessV0ScriptHash id => bech32Encode params.bech32HRP (0 :: convertBits85 id)
  | .witnessUnknown version program =>
    if version < 1 ∨ version > 16 ∨ program.length < 2 ∨ program.length > 40 then .ok []
    else bech32Encode params.bech32HRP (version :: convertBits85 program)

/-- The bech32 part of `DecodeDestination`. -/
def decodeBech32Destination (str : List UInt8) (params : AddressParams) : CTxDestination :=
  let bech := Bech32.decode str
  if bech.2.length > 0 ∧ bech.1 = params.bech32HRP then
    -- the first 5-bit symbol is the witness version
    let version := bech.2.headD 0
    match convertBits 5 8 false (bech.2.tail.map UInt8.toNat) with
    | none => .noDestination
    | some data =>
      let data := data.map UInt8.ofNat
      if version = 0 then
        if data.length = 20 then .witnessV0KeyHash data
        else if data.length = 32 then .witnessV0ScriptHash data
        else .noDestination
      else if version > 16 ∨ data.length < 2 ∨ data.length > 40 then .noDestination
      else .witnessUnknown version data
  else .noDestination

/-- `DecodeDestination`: Base58Check with a 20-byte hash after one of the two
prefixes, else bech32. -/
def decodeDestination (str : List UInt8) (params : AddressParams) : Except String CTxDestination :=
  match decodeBase58Check hash256 str with
  | .error e => .error e
  | .ok (some data) =>
    if data.length = 20 + params.pubkeyAddress.length ∧
        data.take params.pubkeyAddress.length = params.pubkeyAddress then
      .ok (.pkHash (data.drop params.pubkeyAddress.length))
    else if data.length = 20 + params.scriptAddress.length ∧
        data.take params.scriptAddress.length = params.scriptAddress then
      .ok (.scriptHash (data.drop params.scriptAddress.length))
    else .ok (decodeBech32Destination str params)
  | .ok none => .ok (decodeBech32Destination str params)

end Destinations

/-- The destinations `DestinationEncoder` writes an address for: hashes of
their type's size, and witness programs of versions `1` to `16` with `2` to
`40` bytes. -/
def CTxDestination.Encodable : CTxDestination → Prop
  | .noDestination => False
  | .pkHash id => id.length = 20
  | .scriptHash id => id.length = 20
  | .witnessV0KeyHash id => id.length = 20
  | .witnessV0ScriptHash id => id.length = 32
  | .witnessUnknown version program => 1 ≤ version ∧ version ≤ 16 ∧ 2 ≤ program.length ∧ program.length ≤ 40

instance (d : CTxDestination) : Decidable d.Encodable :=
  match d with
  | .noDestination => isFalse id
  | .pkHash id => inferInstanceAs (Decidable (id.length = 20))
  | .scriptHash id => inferInstanceAs (Decidable (id.length = 20))
  | .witnessV0KeyHash id => inferInstanceAs (Decidable (id.length = 20))
  | .witnessV0ScriptHash id => inferInstanceAs (Decidable (id.length = 32))
  | .witnessUnknown version program =>
    inferInstanceAs (Decidable (1 ≤ version ∧ version ≤ 16 ∧ 2 ≤ program.length ∧ program.length ≤ 40))

/-- Chain parameters whose addresses read back: two different base58
prefixes, and a human-readable part that `bech32::Decode` gives back, short
enough for the longest program. -/
structure AddressParams.Valid (params : AddressParams) : Prop where
  prefixes_ne : params.pubkeyAddress ≠ params.scriptAddress
  hrp_ne_nil : params.bech32HRP ≠ []
  hrp_chars : ∀ c ∈ params.bech32HRP, Bech32.isUpper c = false ∧ 33 ≤ c ∧ c ≤ 126
  hrp_length : params.bech32HRP.length ≤ 18

/-! ## The regrouping of witness programs -/

theorem toNat_lt_of_mem_convertBits85 {bytes : List UInt8} : ∀ v ∈ convertBits85 bytes, v.toNat < 32 := by
  obtain ⟨out, hout, hlt, -⟩ := @convertBits_pad 8 5 (by decide) (bytes.map UInt8.toNat)
    (fun x hx => by obtain ⟨c, -, rfl⟩ := List.mem_map.mp hx; exact c.toNat_lt)
  intro v hv
  rw [convertBits85, hout, Option.getD_some] at hv
  obtain ⟨o, ho, rfl⟩ := List.mem_map.mp hv
  have := hlt o ho
  rw [UInt8.toNat_ofNat', Nat.mod_eq_of_lt (by omega)]
  exact this

theorem convertBits85_eq (bytes : List UInt8) :
    ∃ out, convertBits 8 5 true (bytes.map UInt8.toNat) = some out ∧ convertBits85 bytes = out.map UInt8.ofNat ∧
      (convertBits85 bytes).map UInt8.toNat = out ∧ 5 * out.length < 8 * bytes.length + 5 ∧
      8 * bytes.length ≤ 5 * out.length := by
  obtain ⟨out, hout, hlt, p, hp, hbits⟩ := @convertBits_pad 8 5 (by decide) (bytes.map UInt8.toNat)
    (fun x hx => by obtain ⟨c, -, rfl⟩ := List.mem_map.mp hx; exact c.toNat_lt)
  have hlen := congrArg List.length hbits
  simp only [List.length_append, length_groupBits, List.length_replicate, List.length_map] at hlen
  refine ⟨out, hout, by rw [convertBits85, hout, Option.getD_some], ?_, by omega, by omega⟩
  rw [convertBits85, hout, Option.getD_some, List.map_map]
  conv_rhs => rw [← List.map_id out]
  apply List.map_congr_left
  intro o ho
  have := hlt o ho
  simp only [Function.comp_apply, UInt8.toNat_ofNat', id]
  omega

theorem length_convertBits85 (bytes : List UInt8) : (convertBits85 bytes).length = (8 * bytes.length + 4) / 5 := by
  obtain ⟨out, -, hmap, -, hlo, hhi⟩ := convertBits85_eq bytes
  rw [hmap, List.length_map]
  omega

/-- The program read back from its 5-bit groups. -/
theorem convertBits_convertBits85 (bytes : List UInt8) :
    convertBits 5 8 false ((convertBits85 bytes).map UInt8.toNat) = some (bytes.map UInt8.toNat) := by
  obtain ⟨out, hout, -, htoNat, -⟩ := convertBits85_eq bytes
  have hround := @convertBits_round_trip 8 5 (by decide) (by decide) (bytes.map UInt8.toNat)
    (fun x hx => by obtain ⟨c, -, rfl⟩ := List.mem_map.mp hx; exact c.toNat_lt)
  rwa [hout, Option.bind_some, ← htoNat] at hround

theorem map_ofNat_toNat (bytes : List UInt8) : (bytes.map UInt8.toNat).map UInt8.ofNat = bytes := by
  rw [List.map_map]
  conv_rhs => rw [← List.map_id bytes]
  exact List.map_congr_left fun c _ => UInt8.ofNat_toNat

/-! ## The round trip -/

/-- The bech32 string of a version and a program reads back. -/
theorem decode_bech32Encode {params : AddressParams} (hp : params.Valid) {version : UInt8} (hv : version.toNat < 32)
    {program : List UInt8} (hlen : program.length ≤ 40) :
    ∃ str, bech32Encode params.bech32HRP (version :: convertBits85 program) = .ok str ∧
      Bech32.encode params.bech32HRP (version :: convertBits85 program) = some str ∧
      Bech32.decode str = (params.bech32HRP, version :: convertBits85 program) := by
  have hvalues : ∀ v ∈ version :: convertBits85 program, v.toNat < 32 := by
    intro v hmem
    rcases List.mem_cons.mp hmem with rfl | hmem
    · exact hv
    · exact toNat_lt_of_mem_convertBits85 v hmem
  have h90 : params.bech32HRP.length + 7 + (version :: convertBits85 program).length ≤ 90 := by
    rw [List.length_cons, length_convertBits85]
    have := hp.hrp_length
    omega
  obtain ⟨str, henc, hdec⟩ := Bech32.decode_encode hp.hrp_ne_nil hp.hrp_chars hvalues h90
  exact ⟨str, by rw [bech32Encode, henc], henc, hdec⟩

/-- The bech32 part of `DecodeDestination` on the groups of a program. -/
theorem decodeBech32Destination_eq {str : List UInt8} {params : AddressParams} {version : UInt8}
    {program : List UInt8} (hdec : Bech32.decode str = (params.bech32HRP, version :: convertBits85 program)) :
    decodeBech32Destination str params =
      if version = 0 then
        if program.length = 20 then .witnessV0KeyHash program
        else if program.length = 32 then .witnessV0ScriptHash program
        else .noDestination
      else if version > 16 ∨ program.length < 2 ∨ program.length > 40 then .noDestination
      else .witnessUnknown version program := by
  rw [decodeBech32Destination, hdec]
  dsimp only
  rw [if_pos ⟨by simp, rfl⟩, List.tail_cons, List.headD_cons, convertBits_convertBits85]
  dsimp only
  rw [map_ofNat_toNat]

/-- What the bech32 branch of `DecodeDestination` reads is a destination
`DestinationEncoder` writes: the version and program checks of the decoder
are those of the encoder. -/
theorem encodable_decodeBech32Destination (str : List UInt8) (params : AddressParams)
    (hd : decodeBech32Destination str params ≠ .noDestination) : (decodeBech32Destination str params).Encodable := by
  unfold decodeBech32Destination at hd ⊢
  dsimp only at hd ⊢
  by_cases hb : (Bech32.decode str).2.length > 0 ∧ (Bech32.decode str).1 = params.bech32HRP
  · rw [if_pos hb] at hd ⊢
    generalize convertBits 5 8 false ((Bech32.decode str).2.tail.map UInt8.toNat) = r at hd ⊢
    generalize (Bech32.decode str).2.headD 0 = version at hd ⊢
    cases r with
    | none => exact absurd rfl hd
    | some data =>
      dsimp only at hd ⊢
      split_ifs at hd ⊢ with h0 h20 h32 hbad
      · exact h20
      · exact h32
      · exact absurd rfl hd
      · exact absurd rfl hd
      · -- a version from `1` to `16` and a program of `2` to `40` bytes
        simp only [not_or, not_lt, gt_iff_lt] at hbad
        exact ⟨UInt8.le_iff_toNat_le.mpr (Nat.one_le_iff_ne_zero.mpr fun h => h0 (UInt8.toNat_inj.mp h)),
          UInt8.not_lt.mp hbad.1, hbad.2.1, hbad.2.2⟩
  · rw [if_neg hb] at hd
    exact absurd rfl hd

section RoundTrip

variable (hash256 : List UInt8 → Uint256)

/-- A bech32 string the chain's human-readable part starts falls through the
Base58Check branch of `DecodeDestination`, given that its check fails. -/
theorem decodeDestination_of_bech32 {params : AddressParams}
    (hcheck : ∀ values str, Bech32.encode params.bech32HRP values = some str →
      decodeBase58Check hash256 str = .ok none)
    {values str : List UInt8} (henc : Bech32.encode params.bech32HRP values = some str) :
    decodeDestination hash256 str params = .ok (decodeBech32Destination str params) := by
  rw [decodeDestination, hcheck values str henc]

/-- Every destination `DestinationEncoder` writes is read back by
`DecodeDestination`. -/
theorem decodeDestination_encodeDestination {params : AddressParams} (hp : params.Valid)
    (hcheck : ∀ values str, Bech32.encode params.bech32HRP values = some str →
      decodeBase58Check hash256 str = .ok none)
    {d : CTxDestination} (hd : d.Encodable) :
    ∃ str, encodeDestination hash256 params d = .ok str ∧ decodeDestination hash256 str params = .ok d := by
  cases d with
  | noDestination => exact hd.elim
  | pkHash id =>
    obtain ⟨str, hstr⟩ : ∃ str, encodeBase58Check hash256 (params.pubkeyAddress ++ id) = .ok str :=
      ⟨_, encodeBase58_eq _⟩
    refine ⟨str, hstr, ?_⟩
    have hlen : (params.pubkeyAddress ++ id).length = 20 + params.pubkeyAddress.length := by
      rw [List.length_append, show id.length = 20 from hd]
      omega
    rw [decodeDestination, decodeBase58Check_of_encodeBase58Check hash256 hstr]
    dsimp only
    rw [if_pos ⟨hlen, List.take_left' rfl⟩, List.drop_left' rfl]
  | scriptHash id =>
    obtain ⟨str, hstr⟩ : ∃ str, encodeBase58Check hash256 (params.scriptAddress ++ id) = .ok str :=
      ⟨_, encodeBase58_eq _⟩
    refine ⟨str, hstr, ?_⟩
    have hlen : (params.scriptAddress ++ id).length = 20 + params.scriptAddress.length := by
      rw [List.length_append, show id.length = 20 from hd]
      omega
    -- the public key prefix does not match: of the same length, it is another prefix
    have hpk : ¬((params.scriptAddress ++ id).length = 20 + params.pubkeyAddress.length ∧
        (params.scriptAddress ++ id).take params.pubkeyAddress.length = params.pubkeyAddress) := by
      rintro ⟨hl, htake⟩
      rw [hlen] at hl
      rw [List.take_left' (by omega)] at htake
      exact hp.prefixes_ne htake.symm
    rw [decodeDestination, decodeBase58Check_of_encodeBase58Check hash256 hstr]
    dsimp only
    rw [if_neg hpk, if_pos ⟨hlen, List.take_left' rfl⟩, List.drop_left' rfl]
  | witnessV0KeyHash id =>
    have hd : id.length = 20 := hd
    obtain ⟨str, henc, hbech, hdec⟩ := decode_bech32Encode hp (by decide : (0 : UInt8).toNat < 32)
      (by omega : id.length ≤ 40)
    refine ⟨str, henc, ?_⟩
    rw [decodeDestination_of_bech32 hash256 hcheck hbech, decodeBech32Destination_eq hdec, if_pos rfl, if_pos hd]
  | witnessV0ScriptHash id =>
    have hd : id.length = 32 := hd
    obtain ⟨str, henc, hbech, hdec⟩ := decode_bech32Encode hp (by decide : (0 : UInt8).toNat < 32)
      (by omega : id.length ≤ 40)
    refine ⟨str, henc, ?_⟩
    rw [decodeDestination_of_bech32 hash256 hcheck hbech, decodeBech32Destination_eq hdec, if_pos rfl,
      if_neg (by omega), if_pos hd]
  | witnessUnknown version program =>
    obtain ⟨h1, h16, h2, h40⟩ := hd
    have hv1 : 1 ≤ version.toNat := UInt8.le_iff_toNat_le.mp h1
    have hv16 : version.toNat ≤ 16 := UInt8.le_iff_toNat_le.mp h16
    obtain ⟨str, henc, hbech, hdec⟩ := decode_bech32Encode hp (by omega : version.toNat < 32) h40
    have hwrite : ¬(version < 1 ∨ version > 16 ∨ program.length < 2 ∨ program.length > 40) := by
      simp only [UInt8.lt_iff_toNat_lt, gt_iff_lt]
      simp
      omega
    refine ⟨str, by rw [encodeDestination, if_neg hwrite, henc], ?_⟩
    have hv0 : version ≠ 0 := fun h => by rw [h] at hv1; exact absurd hv1 (by decide)
    rw [decodeDestination_of_bech32 hash256 hcheck hbech, decodeBech32Destination_eq hdec, if_neg hv0,
      if_neg fun h => hwrite (Or.inr h)]

/-- Every destination `DecodeDestination` reads is one `DestinationEncoder`
writes; an address that decodes at all decodes to a destination whose own
address reads back to it. -/
theorem decodeDestination_reencodes {params : AddressParams} (hp : params.Valid)
    (hcheck : ∀ values str, Bech32.encode params.bech32HRP values = some str →
      decodeBase58Check hash256 str = .ok none)
    {str : List UInt8} {d : CTxDestination} (h : decodeDestination hash256 str params = .ok d)
    (hd : d ≠ .noDestination) :
    d.Encodable ∧ ∃ str', encodeDestination hash256 params d = .ok str' ∧
      decodeDestination hash256 str' params = .ok d := by
  have henc : d.Encodable := by
    unfold decodeDestination at h
    split at h
    · cases h
    · split_ifs at h with hpk hsc
      · cases h
        show (_ : List UInt8).length = 20
        rw [List.length_drop, hpk.1]
        omega
      · cases h
        show (_ : List UInt8).length = 20
        rw [List.length_drop, hsc.1]
        omega
      · cases h
        exact encodable_decodeBech32Destination str params hd
    · cases h
      exact encodable_decodeBech32Destination str params hd
  exact ⟨henc, decodeDestination_encodeDestination hash256 hp hcheck henc⟩

set_option maxRecDepth 4096 in
theorem valid_chainAddressParams :
    ∀ params ∈ [mainAddressParams, testNetAddressParams, regTestAddressParams], params.Valid := by
  intro params hmem
  simp only [List.mem_cons, List.not_mem_nil, or_false] at hmem
  rcases hmem with rfl | rfl | rfl <;> exact ⟨by decide, by decide, by decide, by decide⟩

/-- Addresses round-trip: the parameters of every chain are valid; with valid
parameters, and Base58Check failing on the chain's bech32 strings, every
destination `DestinationEncoder` writes is read back by `DecodeDestination`;
and the 5-bit regrouping of a byte string reads back. -/
theorem address_round_trip :
    (∀ params ∈ [mainAddressParams, testNetAddressParams, regTestAddressParams], params.Valid) ∧
      (∀ params : AddressParams, params.Valid →
        (∀ values str, Bech32.encode params.bech32HRP values = some str →
          decodeBase58Check hash256 str = .ok none) →
        ∀ d : CTxDestination, d.Encodable →
          ∃ str, encodeDestination hash256 params d = .ok str ∧ decodeDestination hash256 str params = .ok d) ∧
      ∀ bytes : List UInt8,
        (convertBits 8 5 true (bytes.map UInt8.toNat)).bind (convertBits 5 8 false) = some (bytes.map UInt8.toNat) :=
  ⟨valid_chainAddressParams, fun _ hp hcheck _ hd => decodeDestination_encodeDestination hash256 hp hcheck hd,
    fun bytes => convertBits_round_trip (by decide) (by decide) fun x hx => by
      obtain ⟨c, -, rfl⟩ := List.mem_map.mp hx
      exact c.toNat_lt⟩

set_option maxRecDepth 4096 in
/-- A human-readable part starting with `l`, outside the base58 alphabet,
keeps every bech32 string out of the Base58Check branch, whatever the hash. -/
theorem decodeBase58Check_of_bech32_l {values str : List UInt8} (h : Bech32.encode [108, 116] values = some str) :
    decodeBase58Check hash256 str = .ok none := by
  rw [Bech32.encode_eq_some (by decide) values, Option.some.injEq] at h
  subst h
  exact decodeBase58Check_cons_of_mapBase58 hash256 (by decide) (by decide) (by decide) _

end RoundTrip

set_option maxRecDepth 4096 in
theorem address_round_trip_witnessV0KeyHash :
    ∃ str, encodeDestination (fun _ => 0) ⟨[0], [5], [108, 116]⟩ (.witnessV0KeyHash (List.replicate 20 7)) = .ok str ∧
      decodeDestination (fun _ => 0) str ⟨[0], [5], [108, 116]⟩ = .ok (.witnessV0KeyHash (List.replicate 20 7)) :=
  (address_round_trip fun _ => 0).2.1 _ ⟨by decide, by decide, by decide, by decide⟩
    (fun _ _ h => decodeBase58Check_of_bech32_l _ h) _ (by decide)

set_option maxRecDepth 4096 in
theorem decodeDestination_reencodes_witnessV0KeyHash :
    ∃ str d, decodeDestination (fun _ => 0) str ⟨[0], [5], [108, 116]⟩ = .ok d ∧ d ≠ .noDestination ∧
      d.Encodable ∧ ∃ str', encodeDestination (fun _ => 0) ⟨[0], [5], [108, 116]⟩ d = .ok str' ∧
        decodeDestination (fun _ => 0) str' ⟨[0], [5], [108, 116]⟩ = .ok d := by
  obtain ⟨str, -, hdec⟩ := @decodeDestination_encodeDestination (fun _ => 0) ⟨[0], [5], [108, 116]⟩
    ⟨by decide, by decide, by decide, by decide⟩ (fun _ _ h => decodeBase58Check_of_bech32_l _ h)
    (.witnessV0KeyHash (List.replicate 20 7)) (by decide)
  exact ⟨str, _, hdec, by decide, decodeDestination_reencodes (fun _ => 0) ⟨by decide, by decide, by decide, by decide⟩
    (fun _ _ h => decodeBase58Check_of_bech32_l _ h) hdec (by decide)⟩

end Metrix
