import XLArig.DaemonClient.Inside

/-!
# XLArig.DaemonClient.Intact

What a template that is not taken leaves behind.

`parseJob` reads the template and the job into variables of its own, but the hashing blob into the
member: a reply that is not taken keeps everything except for that (`intact_iff`).  The blob is
half of a share for a DERO daemon, whose other half is still the old template.
-/

namespace XLArig

open Client (toHex)
open Client.Requests (nonceBytes)

namespace DaemonClient

/-- The parameters of the `submitblock` request for a result, if one is made. -/
def blockParams (s : DaemonClient) (result : JobResult) : Option (List CString) :=
  if s.blocktemplate.isNone ∨ result.jobId ≠ templateId s.blocktemplate then none
  else
    let s := s.submit result
    some (if s.apiVersion = .DERO then [s.blocktemplate, s.blockhashingblob]
      else [s.blocktemplate])

/-- The work of `s` is that of `t`. -/
structure Intact (s t : DaemonClient) : Prop where
  job : t.job = s.job
  blocktemplate : t.blocktemplate = s.blocktemplate
  blockhashingblob : t.blockhashingblob = s.blockhashingblob
  prevHash : t.prevHash = s.prevHash
  share : ∀ result, t.blockParams result = s.blockParams result

variable {s t : DaemonClient} {params : Json} {random : Memory} {leaves : Bool}

/-- The nonce is written into one of the two strings. -/
theorem submit_eq {result : JobResult}
    (h : ¬ (s.blocktemplate.isNone ∨ result.jobId ≠ templateId s.blocktemplate)) :
    let data := overwrite s.mined kNonceOffset (toHex (nonceBytes result))
    (s.submit result).apiVersion = s.apiVersion ∧
      (s.submit result).blocktemplate = (if s.apiVersion = .DERO then s.blocktemplate else data) ∧
      (s.submit result).blockhashingblob =
        (if s.apiVersion = .DERO then data else s.blockhashingblob) := by
  simp only [submit, use, h, if_false]
  by_cases hdero : s.apiVersion = .DERO
  · simp [hdero, rpcSend, mined]
  · simp [hdero, rpcSend, mined]

/-- A share is made of the template and, with DERO, of the hashing blob. -/
theorem blockParams_eq (happ : t.apiVersion = s.apiVersion)
    (htemplate : t.blocktemplate = s.blocktemplate)
    (hblob : s.apiVersion = .DERO → t.blockhashingblob = s.blockhashingblob) (result : JobResult) :
    t.blockParams result = s.blockParams result := by
  unfold blockParams
  rw [htemplate]
  split
  case isTrue => rfl
  case isFalse h =>
    have h' := h
    rw [← htemplate] at h'
    obtain ⟨hs, hstemplate, hsblob⟩ := submit_eq h
    obtain ⟨ht, httemplate, htblob⟩ := submit_eq h'
    dsimp only
    rw [hs, ht, hstemplate, httemplate, hsblob, htblob, happ]
    by_cases hdero : s.apiVersion = .DERO
    · simp [mined, happ, hdero, htemplate, hblob hdero]
    · simp [mined, happ, hdero, htemplate]

section

variable [Features]

/-- Only the hashing blob is written. -/
theorem parseJob_false (h : (s.parseJob params random leaves).2 = false) :
    ∃ accesses, (s.parseJob params random leaves).1 =
      { s with
        blockhashingblob := s.hashingBlob params random
        accesses } := by
  unfold parseJob at h ⊢
  dsimp only at h ⊢
  split at h
  case isTrue htemplate =>
    rw [if_pos htemplate]
    split
    · exact ⟨_, rfl⟩
    · exact ⟨_, rfl⟩
  case isFalse htemplate =>
    rw [if_neg htemplate]
    split at h
    · split
      · exact ⟨_, rfl⟩
      · exact ⟨_, rfl⟩
    · contradiction

/-- The hashing blob of a reply that is not taken replaces that of the current job. -/
theorem intact_iff (h : (s.parseJob params random leaves).2 = false) :
    Intact s (s.parseJob params random leaves).1 ↔
      s.hashingBlob params random = s.blockhashingblob := by
  obtain ⟨accesses, ht⟩ := parseJob_false h
  rw [ht]
  constructor
  · exact Intact.blockhashingblob
  · intro hblob
    refine ⟨rfl, rfl, hblob, rfl, ?_⟩
    exact blockParams_eq rfl rfl fun _ => hblob

/-- Only a DERO daemon is sent another share. -/
theorem blockParams_parseJob (h : (s.parseJob params random leaves).2 = false)
    (hdero : s.apiVersion ≠ .DERO) (result : JobResult) :
    (s.parseJob params random leaves).1.blockParams result = s.blockParams result := by
  obtain ⟨accesses, ht⟩ := parseJob_false h
  have hkept : (s.parseJob params random leaves).1.apiVersion = s.apiVersion ∧
      (s.parseJob params random leaves).1.blocktemplate = s.blocktemplate := by
    rw [ht]
    exact ⟨rfl, rfl⟩
  exact blockParams_eq hkept.1 hkept.2 (fun hc => absurd hc hdero) result

end

/-! ## A blob that is too short -/

/-- The result of a template whose blob is `00`. -/
abbrev shortBlob : Json :=
  .object [(bytes "blocktemplate_blob", .string (List.replicate 118 0x30)),
    (bytes "blockhashing_blob", .string (bytes "00"))]

/-- A reply that repeats the hashing blob, without a template. -/
theorem intact_iff_same :
    let s := { init samplePool 1 with blockhashingblob := some (bytes "00") }
    let params : Json := .object [(bytes "blockhashing_blob", .string (bytes "00"))]
    Intact s (s.parseJob params (fun _ => 0) false).1 := by
  intro s params
  exact (intact_iff (by decide +kernel)).mpr (by decide +kernel)

/-- A daemon's reply that is not taken, and what is submitted for the job before it. -/
theorem mixes_shares :
    ∃ s, machine.run (init { samplePool with coin := .DERO } 1)
        [.connect, .reply (.post 1) (templateReply (List.replicate 118 0x30)) (fun _ => 0) false] =
          some s ∧
      (s.parseJob shortBlob (fun _ => 0) false).2 = false ∧
      ¬ Intact s (s.parseJob shortBlob (fun _ => 0) false).1 := by
  have hrun : ((machine.run (init { samplePool with coin := .DERO } 1)
      [.connect, .reply (.post 1) (templateReply (List.replicate 118 0x30)) (fun _ => 0)
        false]).all fun s =>
      (s.parseJob shortBlob (fun _ => 0) false).2 = false ∧
        (s.parseJob shortBlob (fun _ => 0) false).1.blockhashingblob ≠ s.blockhashingblob) =
      true := by
    decide +kernel
  obtain ⟨s, hs⟩ : ∃ s, machine.run (init { samplePool with coin := .DERO } 1)
      [.connect, .reply (.post 1) (templateReply (List.replicate 118 0x30)) (fun _ => 0) false] =
        some s :=
    Option.isSome_iff_exists.mp (by decide +kernel)
  obtain ⟨hfalse, hblob⟩ := of_decide_eq_true ((Option.all_eq_true _ _).mp hrun s hs)
  exact ⟨s, hs, hfalse, fun h => hblob h.blockhashingblob⟩

end DaemonClient

end XLArig
