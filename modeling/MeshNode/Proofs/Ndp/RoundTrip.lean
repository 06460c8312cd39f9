import MeshNode.Proofs.Ndp.Reading
import MeshNode.Proofs.Ndp.Writing

/-!
# Writing and reading advertisements

The two directions of the codec, each through the grammar in between:

* `decode_encode` — what is written is read back up to the wire's precision;
* `encode_decode` — what was read is written as its normal form, which is no
  longer and is its own normal form;
* `encode_readable_iff` — the writer keeps to what its reader takes exactly
  when every list of name servers names one, or another option keeps the
  message from being written at all. `serverless` is a message that is
  written and not taken.
-/

namespace MeshNode.Ndp

variable {ra : RouterAdvertisement} {bytes : List UInt8}

/-! ## Written, then read -/

/-- **Decode after encode.** Reading gives the advertisement cut to the wire,
so it gives the advertisement itself exactly when nothing was cut. -/
theorem decode_encode (hserved : ∀ o ∈ ra.options, o.Served)
    (hforeign : ∀ o ∈ ra.options, o.Foreign) (h : ra.encode = .ok bytes) :
    decode bytes = .ok (.advertisement ra.norm) ∧
      (decode bytes = .ok (.advertisement ra) ↔ ra.norm = ra) := by
  have hdecode : decode bytes = .ok (.advertisement ra.norm) :=
    decode_of_spells (spells_of_encode hforeign hserved h)
  refine ⟨hdecode, ?_⟩
  rw [hdecode, Except.ok.injEq, Message.advertisement.injEq]

/-- An advertisement in which every field is cut: durations past their fields
and between their units, and routes with more network than they need. -/
def overfull : RouterAdvertisement where
  hopLimit := 64
  managed := true
  other := false
  preference := .low
  routerLifetime := ⟨70000500000000⟩
  reachableTime := ⟨1500001⟩
  retransmitTimer := .ofSecs 5000000
  options :=
    [.network (.padded 16 [0x20, 0x01]) 64 true false (.ofSecs 5000000000) ⟨1999999999⟩,
      .route (.padded 16 (List.replicate 16 0xff)) 64 .high ⟨1⟩,
      .route (.padded 16 (List.replicate 16 0xff)) 65 .medium (.ofSecs 4294967296),
      .dnsServers (.ofSecs 5000000000) [.padded 16 [0xfe, 0x80]],
      .unknown 5 [0, 0, 0, 0, 5, 0xdc]]

theorem decode_encode_overfull :
    ∃ bytes, (∀ o ∈ overfull.options, o.Served) ∧ (∀ o ∈ overfull.options, o.Foreign) ∧
      overfull.encode = .ok bytes ∧ decode bytes = .ok (.advertisement overfull.norm) ∧
      overfull.norm ≠ overfull := by
  have hserved : ∀ o ∈ overfull.options, o.Served := by decide
  have hforeign : ∀ o ∈ overfull.options, o.Foreign := by decide
  exact ⟨_, hserved, hforeign, rfl, (decode_encode hserved hforeign rfl).1, by decide⟩

/-! ## Read, then written -/

/-- **Encode after decode.** Writing what was read gives octets that are no
more, that are read as the same advertisement with its routes cut to what they
need, and that this advertisement is written as again. -/
theorem encode_decode (h : decode bytes = .ok (.advertisement ra)) :
    ∃ bytes', ra.encode = .ok bytes' ∧ bytes'.length ≤ bytes.length ∧
      decode bytes' = .ok (.advertisement ra.trim) ∧ ra.trim.encode = .ok bytes' := by
  have hspells : Spells bytes (.advertisement ra) := decode_eq_ok_iff.mp h
  have hserved : ∀ o ∈ ra.options, o.Served := by
    intro o ho
    obtain ⟨b, hb⟩ := hspells.options_spelled o ho
    exact hb.served
  have hforeign : ∀ o ∈ ra.options, o.Foreign := by
    intro o ho
    obtain ⟨b, hb⟩ := hspells.options_spelled o ho
    exact hb.foreign
  obtain ⟨bytes', hencode, hlen⟩ := hspells.exists_encode
  have hagain := decode_of_spells (spells_of_encode hforeign hserved hencode)
  rw [hspells.norm_eq_trim] at hagain
  exact ⟨bytes', hencode, hlen, hagain, by rw [ra.encode_trim, hencode]⟩

/-- A header, and a route of length 0 that still carries sixteen octets and has
the reserved preference. -/
def overlong : List UInt8 :=
  [134, 0, 0xab, 0xcd, 64, 0x10, 0, 30, 0, 0, 0, 0, 0, 0, 0, 0] ++
    [24, 3, 0, 0x10, 0, 0, 7, 8] ++ List.replicate 16 0xff

theorem encode_decode_overlong :
    ∃ ra bytes', decode overlong = .ok (.advertisement ra) ∧ ra.encode = .ok bytes' ∧
      bytes'.length = 24 ∧ decode bytes' = .ok (.advertisement ra.trim) ∧
      ra.trim.encode = .ok bytes' := by
  have hread : decode overlong = .ok (.advertisement
      { hopLimit := 64, managed := false, other := false, preference := .medium
        routerLifetime := .ofSecs 30, reachableTime := .ofMillis 0, retransmitTimer := .ofMillis 0
        options := [.route (.padded 16 (List.replicate 16 0xff)) 0 .medium (.ofSecs 1800)] }) := by
    cbv
  obtain ⟨bytes', hencode, -, hagain, hstable⟩ := encode_decode hread
  have hlen : bytes'.length = 24 := by
    cases hencode
    rfl
  exact ⟨_, bytes', hread, hencode, hlen, hagain, hstable⟩

/-! ## What the writer promises its reader -/

/-- The reader takes whatever the writer gives it. -/
def RouterAdvertisement.Readable (ra : RouterAdvertisement) : Prop :=
  ∀ bytes, ra.encode = .ok bytes → ∃ ra', decode bytes = .ok (.advertisement ra')

/-- The writer gives nothing when an option has no form in the grammar. -/
def RouterAdvertisement.Refused (ra : RouterAdvertisement) : Prop :=
  (∃ o ∈ ra.options, ¬ o.HasForm) → ∃ e, ra.encode = .error e

/-- A message that has a list of no servers, and is written, is refused for the
length of the first such list. -/
theorem decode_of_not_served (hforeign : ∀ o ∈ ra.options, o.Foreign)
    (hunserved : ∃ o ∈ ra.options, ¬ o.Served) (h : ra.encode = .ok bytes) :
    decode bytes = .error (.badOptionLength kindDns 1) :=
  decode_of_defect (defect_of_encode hforeign hunserved h)

theorem refused_of_served (hforeign : ∀ o ∈ ra.options, o.Foreign)
    (h : ∃ o ∈ ra.options, o.Served ∧ ¬ o.HasForm) : ∃ e, ra.encode = .error e := by
  rcases ra.exists_encode_or_error with hok | herror
  · obtain ⟨o, ho, hserved, hform⟩ := h
    obtain ⟨front, hfront⟩ := RouterAdvertisement.exists_encode_iff.mp hok o ho
    exact absurd (o.hasForm_of_encode (hforeign o ho) hserved hfront) hform
  · exact herror

/-- **The writer and its reader.** The writer keeps its promises exactly when
every list of name servers names one, or when another option has no form and
nothing is written. Where it does not, the reader refuses the first empty
list. -/
theorem encode_readable_iff (hforeign : ∀ o ∈ ra.options, o.Foreign) :
    (ra.Readable ∧ ra.Refused ↔
      (∀ o ∈ ra.options, o.Served) ∨ ∃ o ∈ ra.options, o.Served ∧ ¬ o.HasForm) ∧
      ∀ bytes, ra.encode = .ok bytes → (∃ o ∈ ra.options, ¬ o.Served) →
        decode bytes = .error (.badOptionLength kindDns 1) := by
  refine ⟨⟨?_, ?_⟩, fun bytes h hunserved => decode_of_not_served hforeign hunserved h⟩
  · rintro ⟨hreadable, -⟩
    by_contra hnot
    rw [not_or] at hnot
    obtain ⟨hserved, hforms⟩ := hnot
    -- every option is written: the served ones have a form, the others need none
    have hall : ∀ o ∈ ra.options, ∃ bytes, o.encode = .ok bytes := by
      intro o ho
      by_cases hs : o.Served
      · have hform : o.HasForm := by
          by_contra hform
          exact hforms ⟨o, ho, hs, hform⟩
        exact hform.exists_encode
      · exact MessageOption.exists_encode_of_not_served hs
    obtain ⟨bytes, hencode⟩ := RouterAdvertisement.exists_encode_iff.mpr hall
    obtain ⟨ra', hread⟩ := hreadable bytes hencode
    have hunserved : ∃ o ∈ ra.options, ¬ o.Served := by
      by_contra hnone
      exact hserved fun o ho => by_contra fun hs => hnone ⟨o, ho, hs⟩
    rw [decode_of_not_served hforeign hunserved hencode] at hread
    cases hread
  · rintro (hserved | hform)
    · refine ⟨?_, ?_⟩
      · intro bytes hencode
        exact ⟨ra.norm, decode_of_spells (spells_of_encode hforeign hserved hencode)⟩
      · rintro ⟨o, ho, hform⟩
        exact refused_of_served hforeign ⟨o, ho, hserved o ho, hform⟩
    · obtain ⟨e, herror⟩ := refused_of_served hforeign hform
      refine ⟨?_, fun _ => ⟨e, herror⟩⟩
      intro bytes hencode
      rw [herror] at hencode
      cases hencode

theorem encode_readable_overfull :
    (∀ o ∈ overfull.options, o.Foreign) ∧ overfull.Readable ∧ overfull.Refused := by
  have hforeign : ∀ o ∈ overfull.options, o.Foreign := by decide
  have hserved : ∀ o ∈ overfull.options, o.Served := by decide
  exact ⟨hforeign, (encode_readable_iff hforeign).1.mpr (.inl hserved)⟩

/-- An advertisement that lists no name servers, for ever. -/
def serverless : RouterAdvertisement where
  hopLimit := 64
  managed := false
  other := false
  preference := .medium
  routerLifetime := .zero
  reachableTime := .zero
  retransmitTimer := .zero
  options := [.dnsServers (.ofSecs 0xffffffff) []]

/-- It is written, and what is written is refused. -/
theorem not_readable_serverless :
    (∀ o ∈ serverless.options, o.Foreign) ∧
      serverless.encode =
        .ok ([134, 0, 0, 0, 64] ++ List.replicate 11 0 ++ [25, 1, 0, 0, 0xff, 0xff, 0xff, 0xff]) ∧
      decode ([134, 0, 0, 0, 64] ++ List.replicate 11 0 ++
        [25, 1, 0, 0, 0xff, 0xff, 0xff, 0xff]) = .error (.badOptionLength 25 1) ∧
      ¬ serverless.Readable := by
  have hencode : serverless.encode =
      .ok ([134, 0, 0, 0, 64] ++ List.replicate 11 0 ++ [25, 1, 0, 0, 0xff, 0xff, 0xff, 0xff]) := by
    decide
  have hdecode : decode ([134, 0, 0, 0, 64] ++ List.replicate 11 0 ++
      [25, 1, 0, 0, 0xff, 0xff, 0xff, 0xff]) = .error (.badOptionLength 25 1) := by
    cbv
  refine ⟨by decide, hencode, hdecode, ?_⟩
  intro hreadable
  obtain ⟨ra', hread⟩ := hreadable _ hencode
  rw [hdecode] at hread
  cases hread

end MeshNode.Ndp
