import MeshNode.Ndp.Encode
import MeshNode.Proofs.Ndp.Coverage

/-!
# What the wire keeps of an advertisement

A field counts whole seconds or milliseconds up to a limit, and a route's
network is cut to the octets that its length needs. `norm` makes both losses
in the advertisement itself, `trim` makes the second one alone:

* **fields** — `seconds_fieldOf` and `milliseconds_fieldOf`: what is written
  of a duration is the duration cut to its field;
* **invariance** — `encode_norm` and `encode_trim`: the octets do not show the
  difference, so a loss happens once at most;
* **read options** — `Block.Spells.norm_eq_trim`: durations that were read
  from fields fit them, so only networks are left to cut.
-/

namespace MeshNode

namespace Duration

/-- Whole seconds, as far as a field counts that ends at `limit`. -/
def capSecs (limit : Nat) (d : Duration) : Duration := .ofSecs (min d.secs limit)

/-- Whole milliseconds, as far as a field counts that ends at `limit`. -/
def capMillis (limit : Nat) (d : Duration) : Duration := .ofMillis (min d.millis limit)

@[simp] theorem secs_ofSecs (n : Nat) : (ofSecs n).secs = n :=
  Nat.mul_div_cancel n (by decide)

@[simp] theorem millis_ofMillis (n : Nat) : (ofMillis n).millis = n :=
  Nat.mul_div_cancel n (by decide)

theorem capSecs_ofSecs {n limit : Nat} (h : n ≤ limit) : (ofSecs n).capSecs limit = ofSecs n := by
  rw [capSecs, secs_ofSecs, Nat.min_eq_left h]

theorem capMillis_ofMillis {n limit : Nat} (h : n ≤ limit) :
    (ofMillis n).capMillis limit = ofMillis n := by
  rw [capMillis, millis_ofMillis, Nat.min_eq_left h]

@[simp] theorem min_secs_capSecs (limit : Nat) (d : Duration) :
    min (d.capSecs limit).secs limit = min d.secs limit := by
  rw [capSecs, secs_ofSecs, Nat.min_assoc, Nat.min_self]

@[simp] theorem min_millis_capMillis (limit : Nat) (d : Duration) :
    min (d.capMillis limit).millis limit = min d.millis limit := by
  rw [capMillis, millis_ofMillis, Nat.min_assoc, Nat.min_self]

end Duration

namespace Ndp

/-! ## Cut to the wire -/

/-- A route's network without the octets that its length does not need. -/
def MessageOption.trim : MessageOption → MessageOption
  | .route address length preference lifetime =>
    .route (.padded 16 (address.toList.take (keptOctets length))) length preference lifetime
  | o => o

/-- An option's lifetimes, as far as their fields count. -/
def MessageOption.cap : MessageOption → MessageOption
  | .network address length onLink autonomous valid preferred =>
    .network address length onLink autonomous (valid.capSecs 0xffffffff)
      (preferred.capSecs 0xffffffff)
  | .route address length preference lifetime =>
    .route address length preference (lifetime.capSecs 0xffffffff)
  | .dnsServers lifetime servers => .dnsServers (lifetime.capSecs 0xffffffff) servers
  | o => o

/-- All of an option that the wire can hold. -/
def MessageOption.norm (o : MessageOption) : MessageOption := o.cap.trim

/-- An advertisement whose routes are cut to what their lengths need. -/
def RouterAdvertisement.trim (ra : RouterAdvertisement) : RouterAdvertisement :=
  { ra with options := ra.options.map MessageOption.trim }

/-- All of an advertisement that the wire can hold. -/
def RouterAdvertisement.norm (ra : RouterAdvertisement) : RouterAdvertisement :=
  { ra with
    routerLifetime := ra.routerLifetime.capSecs 0xffff
    reachableTime := ra.reachableTime.capMillis 0xffffffff
    retransmitTimer := ra.retransmitTimer.capMillis 0xffffffff
    options := ra.options.map MessageOption.norm }

/-! ## Fields -/

/-- A field of `width` octets that holds a number. -/
def fieldOf (width value : Nat) : Octets width := ⟨beBytes width value, length_beBytes width value⟩

theorem seconds_fieldOf {width limit : Nat} (h : limit < 256 ^ width) (d : Duration) :
    seconds (fieldOf width (min d.secs limit)) = d.capSecs limit := by
  have hlt : min d.secs limit < 256 ^ width := Nat.lt_of_le_of_lt (Nat.min_le_right _ _) h
  rw [seconds, fieldOf, beValue_beBytes_of_lt hlt, Duration.capSecs]

theorem milliseconds_fieldOf {width limit : Nat} (h : limit < 256 ^ width) (d : Duration) :
    milliseconds (fieldOf width (min d.millis limit)) = d.capMillis limit := by
  have hlt : min d.millis limit < 256 ^ width := Nat.lt_of_le_of_lt (Nat.min_le_right _ _) h
  rw [milliseconds, fieldOf, beValue_beBytes_of_lt hlt, Duration.capMillis]

/-- What a field can hold is within any limit that its octets reach. -/
theorem beValue_le {n limit : Nat} (h : 256 ^ n ≤ limit + 1) (o : Octets n) :
    beValue o.toList ≤ limit := by
  have hlt := beValue_lt o.toList
  rw [o.length_toList] at hlt
  omega

theorem capSecs_seconds {n limit : Nat} (h : 256 ^ n ≤ limit + 1) (o : Octets n) :
    (seconds o).capSecs limit = seconds o :=
  Duration.capSecs_ofSecs (beValue_le h o)

theorem capMillis_milliseconds {n limit : Nat} (h : 256 ^ n ≤ limit + 1) (o : Octets n) :
    (milliseconds o).capMillis limit = milliseconds o :=
  Duration.capMillis_ofMillis (beValue_le h o)

/-! ## The octets do not show what is lost -/

/-- The octets that stay are the ones that were there. -/
theorem take_trimmed {n : Nat} (h : n ≤ 16) (address : Ipv6) :
    (Octets.padded 16 (address.toList.take n)).toList.take n = address.toList.take n := by
  have hlen : (address.toList.take n).length = n := by
    rw [List.length_take, address.length_toList, Nat.min_eq_left h]
  rw [Octets.toList_padded (by omega), List.take_left' hlen]

theorem MessageOption.encode_cap (o : MessageOption) : o.cap.encode = o.encode := by
  cases o <;> simp [cap, encode, secs32]

theorem MessageOption.encode_trim (o : MessageOption) : o.trim.encode = o.encode := by
  cases o with
  | route address length preference lifetime =>
    rw [trim, encode, encode]
    by_cases h : length ≤ 128
    · rw [routeOctets?_of_le h]
      simp only [take_trimmed (keptOctets_le length)]
    · -- no octets are written at all, whatever the network
      rw [routeOctets?_of_gt (UInt8.not_le.mp h)]
  | _ => rfl

theorem MessageOption.encode_norm (o : MessageOption) : o.norm.encode = o.encode := by
  rw [norm, encode_trim, encode_cap]

theorem encodeOptions_map {f : MessageOption → MessageOption} (hf : ∀ o, (f o).encode = o.encode)
    (options : List MessageOption) : encodeOptions (options.map f) = encodeOptions options := by
  induction options with
  | nil => rfl
  | cons o options ih => rw [List.map_cons, encodeOptions, encodeOptions, hf, ih]

theorem RouterAdvertisement.encode_trim (ra : RouterAdvertisement) :
    ra.trim.encode = ra.encode := by
  rw [encode, encode]
  show (do let options ← encodeOptions (ra.options.map MessageOption.trim)
           return ra.header ++ options) = _
  rw [encodeOptions_map MessageOption.encode_trim]

theorem RouterAdvertisement.encode_norm (ra : RouterAdvertisement) :
    ra.norm.encode = ra.encode := by
  have hheader : ra.norm.header = ra.header := by
    simp [header, norm, secs16, millis32]
  rw [encode, encode, hheader]
  show (do let options ← encodeOptions (ra.options.map MessageOption.norm)
           return ra.header ++ options) = _
  rw [encodeOptions_map MessageOption.encode_norm]

/-! ## What was read fits its fields -/

theorem Block.Spells.cap_eq {b : Block} {o : MessageOption} (h : b.Spells o) : o.cap = o := by
  have hword : 256 ^ 4 ≤ 0xffffffff + 1 := by decide
  cases h <;> simp only [MessageOption.cap, capSecs_seconds hword]

theorem Block.Spells.norm_eq_trim {b : Block} {o : MessageOption} (h : b.Spells o) :
    o.norm = o.trim := by
  rw [MessageOption.norm, h.cap_eq]

theorem Spells.norm_eq_trim {bytes : List UInt8} {ra : RouterAdvertisement}
    (h : Spells bytes (.advertisement ra)) : ra.norm = ra.trim := by
  cases h with
  | @advertisement _ _ _ _ _ _ rest options hrow =>
    have hoptions : options.map MessageOption.norm = options.map MessageOption.trim := by
      apply List.map_congr_left
      intro o ho
      obtain ⟨b, hb⟩ := hrow.spelled o ho
      exact hb.norm_eq_trim
    have hhalf : 256 ^ 2 ≤ 0xffff + 1 := by decide
    have hword : 256 ^ 4 ≤ 0xffffffff + 1 := by decide
    simp only [RouterAdvertisement.norm, RouterAdvertisement.trim, capSecs_seconds hhalf,
      capMillis_milliseconds hword, hoptions]

end Ndp

end MeshNode
