import SharingProbe.HalAio.Model

/-!
# The size of the HAL buffer

`Allocate` rounds the data up to the least common multiple of 1 GiB and the
granularity that HAL reports.  It rejects a granularity above `2 ^ 40`, but the
least common multiple also depends on how many factors of two the granularity has,
so the guard does not keep the computation from wrapping.
-/

namespace SharingProbe.HalAio

open Interaction

/-- The length that is passed to HAL. -/
def Call.length : Call → Option ℕ
  | sdk (.halMemAddressReserve size) => some size
  | sdk (.halMemCreate size _) => some size
  | sdk (.halMemMap _ size _) => some size
  | _ => none

/-- HAL has reported this granularity. -/
def Granted (granularity : ℕ) (t : List HAEvent) : Prop :=
  ∃ p huge, (⟨p, .sdk (.halMemGetAllocationGranularity huge), (0, granularity)⟩ : HAEvent) ∈ t

/-- Whatever the environment does after it has reported the granularity, every
length that `Allocate` passes to HAL is computed without wrapping, and it is the
least multiple that the buffer fits in. -/
def AllocatesExactly (bytes granularity : ℕ) : Prop :=
  ∀ huge p t t₁ e t₂ size, (allocate bytes huge p).Visits t → t = t₁ ++ e :: t₂ →
    Granted granularity t₁ → e.call.length = some size →
      ExactStride bytes vaAlignment granularity size ∧ bytes ≤ size

/-- The lengths that are passed to HAL. -/
def Sized (bytes : ℕ) (t : List HAEvent) (_ : Process) (c : Call) : Prop :=
  ∀ size granularity, c.length = some size → Granted granularity t →
    size = rankStride bytes granularity

/-- Only one granularity has been reported. -/
def OnlyGranted (granularity : ℕ) (_ : Process) (t : List HAEvent) : Prop :=
  ∀ other, Granted other t → other = granularity

theorem sdk_sized {bytes granularity : ℕ} {c : SdkCall}
    (hc : ∀ huge, c ≠ .halMemGetAllocationGranularity huge)
    (hlength : ∀ size, (Call.sdk c).length = some size → size = rankStride bytes granularity) :
    (sdk c).Triple (Sized bytes) (OnlyGranted granularity) (fun _ => OnlyGranted granularity)
      (OnlyGranted granularity) := by
  have hasked : (Proc.ask (R := Call.Reply) (.sdk c) : HA (ℤ × ℕ)).Triple (Sized bytes)
      (OnlyGranted granularity) (fun _ => OnlyGranted granularity) (OnlyGranted granularity) := by
    refine Proc.triple_ask (fun p t honly size other hsize hgranted => ?_) ?_
    · rw [honly other hgranted]
      exact hlength size hsize
    · rintro p t reply honly other ⟨p', huge, hmem⟩
      rcases List.mem_append.mp hmem with hbefore | hnow
      · exact honly other ⟨p', huge, hbefore⟩
      · have hcall := congrArg Event.call (List.mem_singleton.mp hnow)
        cases hcall
        exact absurd rfl (hc huge)
  apply Proc.Triple.bind hasked
  intro reply
  split
  · exact Proc.triple_throw fun _ _ honly => honly
  · exact Proc.triple_pure fun _ _ honly => honly

theorem granularity_reported (bytes : ℕ) (huge : Bool) :
    (sdk (.halMemGetAllocationGranularity huge)).Triple (Sized bytes) (fun _ t => t = [])
      (fun granularity => OnlyGranted granularity) (fun _ _ => True) := by
  have hasked : (Proc.ask (R := Call.Reply) (.sdk (.halMemGetAllocationGranularity huge)) :
      HA (ℤ × ℕ)).Triple (Sized bytes) (fun _ t => t = []) (fun reply => OnlyGranted reply.2)
      (fun _ _ => True) := by
    refine Proc.triple_ask (fun _ _ _ => nofun) ?_
    rintro p t reply rfl other ⟨p', huge', hmem⟩
    cases List.mem_singleton.mp hmem
    rfl
  apply Proc.Triple.bind hasked
  intro reply
  split
  · exact Proc.triple_throw fun _ _ _ => trivial
  · exact Proc.triple_pure fun _ _ honly => honly

theorem allocate_sized (bytes : ℕ) (huge : Bool) :
    (allocate bytes huge).Triple (Sized bytes) (fun _ t => t = []) (fun _ _ _ => True)
      (fun _ _ => True) := by
  apply Proc.Triple.bind (granularity_reported bytes huge)
  intro granularity
  have hset : ∀ f : HostMemory → HostMemory, (setMemory f).Triple (Sized bytes)
      (OnlyGranted granularity) (fun _ => OnlyGranted granularity) (OnlyGranted granularity) :=
    fun f => Proc.triple_modify fun _ _ honly => honly
  have hthrow : ∀ (c : Prop) [Decidable c] (e : Exn),
      (Proc.onlyIf c (Proc.throw e) : HA PUnit).Triple (Sized bytes) (OnlyGranted granularity)
        (fun _ => OnlyGranted granularity) (OnlyGranted granularity) :=
    fun c _ e => Proc.triple_onlyIf (fun _ => Proc.triple_throw fun _ _ honly => honly)
      fun _ _ _ honly => honly
  have hsdk : ∀ (c : SdkCall), (∀ huge, c ≠ .halMemGetAllocationGranularity huge) →
      (∀ size, (Call.sdk c).length = some size → size = rankStride bytes granularity) →
        (sdk c).Triple (Sized bytes) (OnlyGranted granularity) (fun _ => OnlyGranted granularity)
          (OnlyGranted granularity) := fun c hc hlength => sdk_sized hc hlength
  refine Proc.Triple.weaken (E := OnlyGranted granularity) (Q := fun _ => OnlyGranted granularity)
    (P := OnlyGranted granularity) ?_ (fun _ _ honly => honly) (fun _ _ _ _ => trivial)
    fun _ _ _ => trivial
  refine Proc.Triple.bind (hthrow _ _) fun _ => ?_
  refine Proc.Triple.bind (hsdk _ ?_ ?_) fun addr => ?_
  · exact nofun
  · exact fun size hsize => (Option.some.inj hsize).symm
  refine Proc.Triple.bind (hset _) fun _ => ?_
  refine Proc.Triple.bind (hthrow _ _) fun _ => ?_
  refine Proc.Triple.bind (hsdk _ ?_ ?_) fun handle => ?_
  · exact nofun
  · exact fun size hsize => (Option.some.inj hsize).symm
  refine Proc.Triple.bind (hset _) fun _ => ?_
  refine Proc.Triple.bind (hsdk _ ?_ ?_) fun _ => hset _
  · exact nofun
  · exact fun size hsize => (Option.some.inj hsize).symm

/-- `Allocate` gets as far as reserving addresses whenever the granularity passes
its guard. -/
theorem allocate_reserves {bytes granularity : ℕ} (hpos : 0 < granularity)
    (hguard : granularity ≤ 2 ^ 40) :
    (allocate bytes true {}).Visits
      [⟨{}, .sdk (.halMemGetAllocationGranularity true), (0, granularity)⟩,
        ⟨{}, .sdk (.halMemAddressReserve (rankStride bytes granularity)), (0, 0)⟩] := by
  have hpasses : ¬(granularity = 0 ∨ granularity > 2 ^ 40) := by omega
  refine Prog.Visits.call ?_
  show ((Proc.onlyIf (granularity = 0 ∨ granularity > 2 ^ 40)
    (Proc.throw (.error "invalid allocation granularity")) >>= fun _ => _ : HA PUnit) {}).Visits _
  unfold Proc.onlyIf
  rw [if_neg hpasses]
  exact Prog.Visits.call (.nil _)

/-- **The guard of `Allocate` is not enough.**  For the data sizes that `main`
admits and the granularities that pass the guard, the lengths passed to HAL are
exact if and only if the least common multiple, and its sum with the data size, fit
into 64 bits. -/
theorem allocatesExactly_iff {bytes granularity : ℕ} (hbytes : 1 ≤ bytes)
    (hmax : bytes ≤ 2 ^ 40) (hpos : 0 < granularity) (hguard : granularity ≤ 2 ^ 40) :
    AllocatesExactly bytes granularity ↔ Fits bytes vaAlignment granularity := by
  have hiff := exactStride_iff (show bytes < 2 ^ 64 by omega) (show 0 < vaAlignment by decide) hpos
  constructor
  · intro hexact
    refine hiff.mp (hexact true {} _ [_] _ [] _ (allocate_reserves hpos hguard) rfl ?_ rfl).1
    exact ⟨{}, true, List.mem_singleton_self _⟩
  · intro hfits huge p t t₁ e t₂ size hvisits hsplit hgranted hlength
    have hsized :=
      Prog.Meets.ok_of_visits (allocate_sized bytes huge p [] rfl) hvisits t₁ e t₂ hsplit
    rw [hsized size granularity hlength hgranted]
    have hstride := hiff.mpr hfits
    exact ⟨hstride, hstride.rounded.le⟩

/-- The granularity of huge pages. -/
theorem allocatesExactly_iff_hugePages :
    AllocatesExactly (2 ^ 31) (2 ^ 21) ↔ Fits (2 ^ 31) vaAlignment (2 ^ 21) :=
  allocatesExactly_iff (by decide) (by decide) (by decide) (by decide)

/-- An odd granularity just below the guard makes the least common multiple wrap. -/
theorem allocate_wraps : (1 ≤ 1 ∧ 1 ≤ 2 ^ 40) ∧ (0 < 2 ^ 40 - 1 ∧ 2 ^ 40 - 1 ≤ 2 ^ 40) ∧
    ¬AllocatesExactly 1 (2 ^ 40 - 1) := by
  refine ⟨by decide, by decide, fun hexact => ?_⟩
  have hstride := (hexact true {} _ [_] _ [] _ (allocate_reserves (by decide) (by decide)) rfl
    ⟨{}, true, List.mem_singleton_self _⟩ rfl).1
  exact absurd hstride.lcm (by decide +kernel)

end SharingProbe.HalAio
