/-
The sizes of messages, drawn from a distribution: `ParseDistribution`,
`SelectSize`, and `selectMessageSize` of a worker.

`ParseDistribution` accepts a text by its total alone, an `int` that wraps, and
refuses it only when it is 0. `sampleable_iff` says which of the accepted texts
`SelectSize` can draw from: those in which no weight is negative and the weights
do not overflow. On these the loop is the weighted choice of the library.
-/
import Burnin.Lib.Weighted
import Burnin.Payload

namespace Burnin

namespace SizeDistribution

/-! ## What is parsed -/

/-- The weight that an entry of the text has written after its colon. -/
def writtenWeight (p : String) : Option Int :=
  (Text.splitTwo ':' (Text.trimSpace p)).bind fun kv => Text.parseInt (Text.trimSpace kv.2)

/-- The weights written in a text. -/
def writtenWeights (s : String) : List Int := (Text.split ',' s).filterMap writtenWeight

theorem writtenWeight_of_parseEntry {p : String} {e : Int × Int} (h : parseEntry p = .ok e) :
    writtenWeight p = .some e.2 := by
  rw [parseEntry] at h
  rw [writtenWeight]
  split at h
  · cases h
  · next size weight hkv =>
    rw [hkv, Option.bind_some]
    split at h
    · cases h
    · split at h
      · cases h
      · next w hw =>
        cases h
        exact hw

theorem filterMap_writtenWeight {ps : List String} {es : List (Int × Int)}
    (h : ps.mapM parseEntry = .ok es) : ps.filterMap writtenWeight = es.map (·.2) := by
  induction ps generalizing es with
  | nil =>
    cases h
    rfl
  | cons p ps ih =>
    rw [List.mapM_cons] at h
    obtain ⟨e, hp, h⟩ := Text.bind_eq_ok.mp h
    obtain ⟨es', hps, h⟩ := Text.bind_eq_ok.mp h
    cases h
    rw [List.filterMap_cons_some (writtenWeight_of_parseEntry hp), ih hps, List.map_cons]

/-- What the loop of `ParseDistribution` keeps: a size for each weight, and the
total of the weights as it wraps. -/
structure Summed (d : SizeDistribution) : Prop where
  length : d.sizes.length = d.weights.length
  total : d.total = Words.wrap d.weights.sum

theorem Summed.add {d : SizeDistribution} (h : d.Summed) (e : Int × Int) : (d.add e).Summed where
  length := by
    show (d.sizes ++ [e.1]).length = (d.weights ++ [e.2]).length
    rw [List.length_append, List.length_append, h.length]
    rfl
  total := by
    show Words.wrap (d.total + e.2) = Words.wrap (d.weights ++ [e.2]).sum
    rw [h.total, Words.wrap_wrap_add, List.sum_append, List.sum_singleton]

theorem foldl_add (es : List (Int × Int)) {d : SizeDistribution} (h : d.Summed) :
    (es.foldl SizeDistribution.add d).Summed ∧
      (es.foldl SizeDistribution.add d).weights = d.weights ++ es.map (·.2) := by
  induction es generalizing d with
  | nil => exact ⟨h, (List.append_nil _).symm⟩
  | cons e es ih =>
    obtain ⟨hsummed, hweights⟩ := ih (h.add e)
    refine ⟨hsummed, ?_⟩
    rw [List.foldl_cons, hweights, List.map_cons]
    exact List.append_assoc d.weights [e.2] _

/-- **What `ParseDistribution` accepts**: the weights of the text, and a total
that does not wrap to 0. -/
theorem parse_ok {s : String} {d : SizeDistribution} (h : parse s = .ok d) :
    d.Summed ∧ d.weights = writtenWeights s ∧ d.total ≠ 0 := by
  rw [parse] at h
  obtain ⟨es, hes, h⟩ := Text.bind_eq_ok.mp h
  obtain ⟨hsummed, hweights⟩ := foldl_add es (d := {}) ⟨rfl, rfl⟩
  dsimp only at h
  split at h
  · cases h
  · next hne =>
    cases h
    refine ⟨hsummed, ?_, hne⟩
    rw [hweights, writtenWeights, filterMap_writtenWeight hes]
    rfl

/-! ## What is drawn -/

theorem pick_lt {r cumulative : Int} {ws : List Int} {i : Nat} (h : pick r cumulative ws = .some i) :
    i < ws.length := by
  induction ws generalizing cumulative i with
  | nil => cases h
  | cons w ws ih =>
    rw [pick] at h
    split at h
    · cases h
      exact Nat.zero_lt_succ _
    · obtain ⟨j, hj, rfl⟩ := Option.map_eq_some_iff.mp h
      exact Nat.succ_lt_succ (ih hj)

/-- Without a negative weight and without an overflow the loop is the weighted
choice. -/
theorem pick_eq_choose {r cumulative : Int} {ws : List Int} (hc : 0 ≤ cumulative) (hws : ∀ w ∈ ws, 0 ≤ w)
    (hsum : cumulative + ws.sum < 2 ^ 63) :
    pick r cumulative ws = Weighted.choose ws (r - cumulative) := by
  induction ws generalizing cumulative with
  | nil => rfl
  | cons w ws ih =>
    have hw : 0 ≤ w := hws w List.mem_cons_self
    have hrest : ∀ v ∈ ws, 0 ≤ v := fun v hv => hws v (List.mem_cons_of_mem w hv)
    have hrestSum : 0 ≤ ws.sum := List.sum_nonneg hrest
    rw [List.sum_cons] at hsum
    have hwrap : Words.wrap (cumulative + w) = cumulative + w :=
      Words.wrap_of_range (by omega) (by omega)
    have hcond : r < cumulative + w ↔ r - cumulative < w := by omega
    have hdraw : r - (cumulative + w) = r - cumulative - w := by omega
    rw [pick, Weighted.choose, hwrap, ih (by omega) hrest (by omega), hdraw]
    simp only [hcond]

/-- The draws of `rand.IntN` for which `SelectSize` returns `size`. -/
def draws (d : SizeDistribution) (size : Int) : Finset Nat :=
  (Finset.range d.total.toNat).filter fun r => d.selectSize r = .some size

/-- Those for which it returns in the round of entry `i`, with the size of that
entry. -/
def drawsAt (d : SizeDistribution) (i : Nat) : Finset Nat :=
  (Finset.range d.total.toNat).filter fun r => d.entry r = .some i ∧ d.selectSize r = d.sizes[i]?

/-- The entries that have a size. -/
def entriesOf (d : SizeDistribution) (size : Int) : Finset Nat :=
  (Finset.range d.sizes.length).filter fun i => d.sizes[i]? = .some size

/-- **A distribution can be sampled**: `SelectSize` never panics and never falls
through its loop; it takes an entry for as many of the draws as the entry
weighs, and returns a size for as many as the entries of that size weigh. -/
structure Sampleable (d : SizeDistribution) : Prop where
  total_pos : 0 < d.total
  selects : ∀ word, (d.selectSize word).isSome = true
  returns : ∀ r : Nat, (r : Int) < d.total →
    ∃ i size, d.entry r = .some i ∧ d.sizes[i]? = .some size ∧ d.selectSize r = .some size
  share : ∀ i w, d.weights[i]? = .some w → ((d.drawsAt i).card : Int) = w
  sizes : ∀ size, ((d.draws size).card : Int) = ∑ i ∈ d.entriesOf size, d.weights.getD i 0

theorem selectSize_of_lt {d : SizeDistribution} {r : Nat} (h : (r : Int) < d.total) :
    d.selectSize r = match d.entry r with
      | .some i => d.sizes[i]?
      | .none => d.sizes.getLast? := by
  have hpos : 0 < d.total := Int.lt_of_le_of_lt (Int.natCast_nonneg r) h
  have hdraw : intN d.total r = .some (r : Int) := by
    rw [intN, if_pos hpos, Int.emod_eq_of_lt (Int.natCast_nonneg r) h]
  cases hentry : d.entry r with
  | none => simp only [selectSize, hdraw, Option.bind_some, hentry]
  | some i => simp only [selectSize, hdraw, Option.bind_some, hentry]

/-- A panic is one of `rand.IntN`. -/
theorem Summed.isSome_selectSize {d : SizeDistribution} (h : d.Summed) (hpos : 0 < d.total)
    (word : Nat) : (d.selectSize word).isSome = true := by
  rw [selectSize, intN, if_pos hpos, Option.bind_some]
  cases he : d.entry (word % d.total) with
  | some i =>
    have hi : i < d.sizes.length := h.length ▸ pick_lt he
    show (d.sizes[i]?).isSome = true
    rw [List.getElem?_eq_getElem hi]
    rfl
  | none =>
    have hne : d.sizes ≠ [] := by
      intro hnil
      have hweights : d.weights = [] := List.length_eq_zero_iff.mp (by rw [← h.length, hnil]; rfl)
      rw [h.total, hweights] at hpos
      exact absurd hpos (by decide)
    show d.sizes.getLast?.isSome = true
    rw [List.getLast?_eq_some_getLast hne]
    rfl

theorem mem_range_total {d : SizeDistribution} {r : Nat} :
    r ∈ Finset.range d.total.toNat ↔ (r : Int) < d.total := by
  rw [Finset.mem_range]
  omega

theorem card_draws {d : SizeDistribution} (hsummed : d.Summed)
    (hshare : ∀ i w, d.weights[i]? = .some w → ((d.drawsAt i).card : Int) = w) (s entries : Finset Nat)
    (hentries : ∀ i ∈ entries, i < d.sizes.length) (hsub : ∀ i ∈ entries, d.drawsAt i ⊆ s)
    (hs : ∀ r ∈ s, ∃ i ∈ entries, r ∈ d.drawsAt i) :
    (s.card : Int) = ∑ i ∈ entries, d.weights.getD i 0 := by
  have hentry : ∀ {r i}, r ∈ d.drawsAt i → d.entry r = .some i := fun h => (Finset.mem_filter.mp h).2.1
  have hdraws : ∀ r ∈ s, ∃ i ∈ entries, d.entry r = .some i := by
    intro r hr
    obtain ⟨i, hi, hri⟩ := hs r hr
    exact ⟨i, hi, hentry hri⟩
  rw [← Weighted.sum_card_share hdraws, Nat.cast_sum]
  refine Finset.sum_congr rfl ?_
  intro i hi
  have hlt : i < d.weights.length := hsummed.length ▸ hentries i hi
  have hfiber : Weighted.share s d.entry i = d.drawsAt i := by
    ext r
    rw [Weighted.mem_share]
    constructor
    · rintro ⟨hr, hri⟩
      obtain ⟨j, -, hrj⟩ := hs r hr
      obtain rfl : j = i := Option.some.inj ((hentry hrj).symm.trans hri)
      exact hrj
    · exact fun hr => ⟨hsub i hi hr, hentry hr⟩
  rw [hfiber, hshare i _ (List.getElem?_eq_getElem hlt), List.getD_eq_getElem _ _ hlt]

theorem Sampleable.sum_weights {d : SizeDistribution} (h : d.Sampleable) (hsummed : d.Summed) :
    d.weights.sum = d.total := by
  have hreturns : ∀ r ∈ Finset.range d.total.toNat, ∃ i ∈ Finset.range d.sizes.length,
      r ∈ d.drawsAt i := by
    intro r hr
    obtain ⟨i, size, hi, hsize, hselect⟩ := h.returns r (mem_range_total.mp hr)
    exact ⟨i, Finset.mem_range.mpr (hsummed.length ▸ pick_lt hi),
      Finset.mem_filter.mpr ⟨hr, hi, hselect.trans hsize.symm⟩⟩
  have hcard := card_draws hsummed h.share _ _ (fun i hi => Finset.mem_range.mp hi)
    (fun i _ => Finset.filter_subset _ _) hreturns
  have hpos := h.total_pos
  rw [Finset.card_range, hsummed.length, Finset.sum_range, Int.toNat_of_nonneg (by omega)] at hcard
  rw [hcard, ← Fin.sum_univ_getElem]
  exact Finset.sum_congr rfl fun i _ => (List.getD_eq_getElem _ _ i.isLt).symm

/-- Without a negative weight and without an overflow a distribution can be
sampled. -/
theorem Summed.sampleable {d : SizeDistribution} (h : d.Summed) (hpos : ∀ w ∈ d.weights, 0 ≤ w)
    (hsum : d.weights.sum < 2 ^ 63) (hne : d.total ≠ 0) : d.Sampleable := by
  have hnonneg : 0 ≤ d.weights.sum := List.sum_nonneg hpos
  have htotal : d.total = d.weights.sum := by
    rw [h.total]
    exact Words.wrap_of_range (by omega) hsum
  have hentry : d.entry = Weighted.choose d.weights := by
    funext r
    rw [entry, pick_eq_choose (le_refl 0) hpos (by omega), Int.sub_zero]
  have htotal_pos : 0 < d.total := by omega
  have hreturns : ∀ r : Nat, (r : Int) < d.total →
      ∃ i size, d.entry r = .some i ∧ d.sizes[i]? = .some size ∧ d.selectSize r = .some size := by
    intro r hr
    have hchosen : (d.entry r).isSome = true := by
      rw [hentry]
      exact Weighted.isSome_choose (Int.natCast_nonneg r) (htotal ▸ hr)
    obtain ⟨i, hi⟩ := Option.isSome_iff_exists.mp hchosen
    have hlt : i < d.sizes.length := h.length ▸ pick_lt hi
    have hsize := List.getElem?_eq_getElem hlt
    exact ⟨i, _, hi, hsize, by rw [selectSize_of_lt hr, hi]; exact hsize⟩
  have hshare : ∀ i w, d.weights[i]? = .some w → ((d.drawsAt i).card : Int) = w := by
    intro i w hw
    -- Where the loop returns, it returns the size of the entry.
    have hdraws : d.drawsAt i = Weighted.share (Finset.range d.total.toNat) d.entry i := by
      refine Finset.filter_congr ?_
      intro r hr
      refine and_iff_left_of_imp ?_
      intro hi
      rw [selectSize_of_lt (mem_range_total.mp hr), hi]
    rw [hdraws, hentry, htotal]
    exact Weighted.card_share_choose hpos hw
  refine ⟨htotal_pos, h.isSome_selectSize htotal_pos, hreturns, hshare, ?_⟩
  intro size
  refine card_draws h hshare _ _ (fun i hi => Finset.mem_range.mp (Finset.mem_filter.mp hi).1) ?_ ?_
  · intro i hi r hr
    obtain ⟨hr, -, hselect⟩ := Finset.mem_filter.mp hr
    exact Finset.mem_filter.mpr ⟨hr, hselect.trans (Finset.mem_filter.mp hi).2⟩
  · intro r hr
    obtain ⟨hrange, hselect⟩ := Finset.mem_filter.mp hr
    obtain ⟨i, size', hi, hsize, hselect'⟩ := hreturns r (mem_range_total.mp hrange)
    obtain rfl : size' = size := Option.some.inj (hselect'.symm.trans hselect)
    have hlt : i < d.sizes.length := (List.getElem?_eq_some_iff.mp hsize).1
    exact ⟨i, Finset.mem_filter.mpr ⟨Finset.mem_range.mpr hlt, hsize⟩,
      Finset.mem_filter.mpr ⟨hrange, hi, hselect'.trans hsize.symm⟩⟩

/-- **Which accepted texts can be sampled**: those whose weights are not
negative and add up to an `int`. -/
theorem sampleable_iff {s : String} {d : SizeDistribution} (h : parse s = .ok d) :
    d.Sampleable ↔ (∀ w ∈ writtenWeights s, 0 ≤ w) ∧ (writtenWeights s).sum < 2 ^ 63 := by
  obtain ⟨hsummed, hweights, hne⟩ := parse_ok h
  rw [← hweights]
  constructor
  · intro hd
    refine ⟨fun w hw => ?_, ?_⟩
    · obtain ⟨i, hi⟩ := List.getElem?_of_mem hw
      rw [← hd.share i w hi]
      exact Int.natCast_nonneg _
    · rw [hd.sum_weights hsummed, hsummed.total]
      exact (Words.wrap_range _).2
  · rintro ⟨hpos, hsum⟩
    exact hsummed.sampleable hpos hsum hne

/-- The distribution of the defaults. -/
theorem sampleable_default :
    ∃ d, parse defaultConfig.message.sizeDistribution = .ok d ∧ d.total = 100 ∧ d.Sampleable := by
  have hparse : parse defaultConfig.message.sizeDistribution =
      .ok ⟨[256, 4096, 65536], [80, 15, 5], 100⟩ := by
    decide +kernel
  exact ⟨_, hparse, rfl, (sampleable_iff hparse).mpr (by decide +kernel)⟩

end SizeDistribution

/-! ## The sizes of a worker's messages -/

namespace Config

/-- `sizeDistrib` in `NewBaseWorker`, which drops the error. -/
def sizeDistrib (c : Config) : Option SizeDistribution :=
  if c.message.sizeMode = "distribution" then
    (SizeDistribution.parse c.message.sizeDistribution).toOption
  else .none

/-- `selectMessageSize`, none when it panics. -/
def selectMessageSize (c : Config) (word : Nat) : Option Int :=
  match c.sizeDistrib with
  | .some d => d.selectSize word
  | .none => .some c.message.sizeBytes

/-- **A worker's producers do not panic** exactly when the total of the
distribution, if there is one, is positive. -/
theorem isSome_selectMessageSize (c : Config) :
    (∀ word, (c.selectMessageSize word).isSome = true) ↔ ∀ d, c.sizeDistrib = .some d → 0 < d.total := by
  cases hd : c.sizeDistrib with
  | none => simp [selectMessageSize, hd]
  | some d =>
    have hsummed : d.Summed := by
      rw [sizeDistrib] at hd
      split at hd
      · cases hparse : SizeDistribution.parse c.message.sizeDistribution with
        | error err =>
          rw [hparse] at hd
          cases hd
        | ok d' =>
          rw [hparse] at hd
          cases hd
          exact (SizeDistribution.parse_ok hparse).1
      · cases hd
    have hselect : ∀ word, c.selectMessageSize word = d.selectSize word := fun word => by
      rw [selectMessageSize, hd]
    simp only [hselect, Option.some.injEq, forall_eq']
    refine ⟨fun h => ?_, hsummed.isSome_selectSize⟩
    by_contra hpos
    have hnone : d.selectSize 0 = .none := by
      rw [SizeDistribution.selectSize, SizeDistribution.intN, if_neg hpos]
      rfl
    have hsome := h 0
    rw [hnone] at hsome
    cases hsome

end Config

/-- The defaults with one size of a negative weight. -/
def negativeWeight : Config :=
  { defaultConfig with
    message := { defaultConfig.message with sizeMode := "distribution", sizeDistribution := "64:-1" } }

/-- A total of -1 is accepted, by `Validate` too, and the first size that is
drawn from it panics. -/
theorem negative_weight_panics :
    negativeWeight.Accepted ∧
      SizeDistribution.parse "64:-1" = .ok ⟨[64], [-1], -1⟩ ∧
        ¬ SizeDistribution.Sampleable ⟨[64], [-1], -1⟩ ∧
      negativeWeight.selectMessageSize 0 = .none := by
  refine ⟨by decide +kernel, by decide +kernel, fun h => ?_, by decide +kernel⟩
  exact absurd h.total_pos (by decide)

end Burnin
