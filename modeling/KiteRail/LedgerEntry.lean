import KiteRail.Sha256
import KiteRail.Time
import KiteRail.HashChain

/-! Ledger rows and their hashes. The preimage of a hash determines every hashed
field, the timestamp up to its microsecond, whether or not the optional policy
version is present. -/
namespace KiteRail
open Bytes

structure Ledger where
  seqNum : ℤ
  timestamp : Time
  agent : Bytes
  tool : Bytes
  decision : Bytes
  policyRule : Bytes
  payloadHash : Bytes
  prevHash : Bytes
  hash : Bytes
  requestID : Bytes
  policyVersion : Bytes
  deriving DecidableEq

namespace Ledger

def normalizeTimestamp (t : Time) : Time := t.utc.truncateMicros

/-- The strings that are hashed, in order. -/
def hashedFields (entry : Ledger) : List Bytes :=
  [decimal entry.seqNum, (normalizeTimestamp entry.timestamp).formatMicros, entry.agent,
    entry.tool, entry.decision, entry.policyRule, entry.payloadHash, entry.requestID,
    entry.prevHash] ++ (if entry.policyVersion = [] then [] else [entry.policyVersion])

def preimage (entry : Ledger) : Bytes := fields entry.hashedFields

def calculateHash (entry : Ledger) : Bytes := hexEncode (Sha256.sum256 entry.preimage)

def normalized (entry : Ledger) : Ledger :=
  { entry with timestamp := normalizeTimestamp entry.timestamp }

/-- Equal field for field, timestamps up to microseconds. -/
def SameRow (a b : Ledger) : Prop := a.normalized = b.normalized

/-- The row with its timestamp in the zone with the given offset. -/
def inZone (offset : ℤ) (entry : Ledger) : Ledger :=
  { entry with timestamp := ⟨entry.timestamp.unixNano, offset⟩ }

/-- A stored row as a driver returns it, in whatever zone it chooses. -/
def ReadBack (stored got : Ledger) : Prop := ∃ offset, got = stored.inZone offset

def scheme : HashChain.Scheme Ledger Bytes := ⟨prevHash, hash, calculateHash⟩

lemma normalizeTimestamp_eq_iff {t u : Time} :
    normalizeTimestamp t = normalizeTimestamp u ↔ t.unixMicro = u.unixMicro := by
  simp only [normalizeTimestamp, Time.utc, Time.truncateMicros, Time.unixMicro, Time.mk.injEq,
    and_true]
  omega

@[simp] lemma normalizeTimestamp_idem (t : Time) :
    normalizeTimestamp (normalizeTimestamp t) = normalizeTimestamp t := by
  rw [normalizeTimestamp_eq_iff]
  simp [normalizeTimestamp, Time.utc, Time.truncateMicros, Time.unixMicro]

@[simp] lemma calculateHash_normalized (e : Ledger) :
    e.normalized.calculateHash = e.calculateHash := by
  simp only [calculateHash, preimage, hashedFields, normalized, normalizeTimestamp_idem]
  rfl

@[simp] lemma calculateHash_inZone (e : Ledger) (offset : ℤ) :
    (e.inZone offset).calculateHash = e.calculateHash := rfl

@[simp] lemma normalized_inZone (e : Ledger) (offset : ℤ) :
    (e.inZone offset).normalized = e.normalized := rfl

lemma calculateHash_ne_nil (e : Ledger) : e.calculateHash ≠ [] := by
  intro h
  have := congrArg List.length h
  rw [calculateHash, hexEncode_length, Sha256.sum256_length] at this
  simp at this

lemma timestamp_of_formatMicros {t u : Time}
    (h : (normalizeTimestamp t).formatMicros = (normalizeTimestamp u).formatMicros) :
    normalizeTimestamp t = normalizeTimestamp u := by
  have hm := Time.formatMicros_inj rfl rfl h
  rw [← normalizeTimestamp_idem t, ← normalizeTimestamp_idem u]
  exact normalizeTimestamp_eq_iff.mpr hm

/-- Equal preimages come from equal fields, whether or not there is a policy version. -/
lemma eq_of_preimage {a b : Ledger} (h : a.preimage = b.preimage) :
    a.seqNum = b.seqNum ∧ normalizeTimestamp a.timestamp = normalizeTimestamp b.timestamp ∧
      a.agent = b.agent ∧ a.tool = b.tool ∧ a.decision = b.decision ∧
      a.policyRule = b.policyRule ∧ a.payloadHash = b.payloadHash ∧ a.requestID = b.requestID ∧
      a.prevHash = b.prevHash ∧ a.policyVersion = b.policyVersion := by
  have hf := fields_injective h
  simp only [hashedFields, List.cons_append, List.nil_append, List.cons.injEq] at hf
  obtain ⟨hseq, ht, hagent, htool, hdec, hrule, hpay, hreq, hprev, hver⟩ := hf
  have hver : a.policyVersion = b.policyVersion := by
    split_ifs at hver with ha hb hb
    · rw [ha, hb]
    · exact (List.cons.inj hver).1
  exact ⟨decimal_injective hseq, timestamp_of_formatMicros ht, hagent, htool, hdec, hrule, hpay,
    hreq, hprev, hver⟩

/-- Equal preimages come from equal rows, the stored hash apart. -/
theorem normalized_of_preimage {a b : Ledger} (h : a.preimage = b.preimage)
    (hh : a.hash = b.hash) : SameRow a b := by
  obtain ⟨hseq, ht, hagent, htool, hdec, hrule, hpay, hreq, hprev, hver⟩ := eq_of_preimage h
  simp only [SameRow, normalized, mk.injEq]
  exact ⟨hseq, ht, hagent, htool, hdec, hrule, hpay, hprev, hh, hreq, hver⟩

/-- What was hashed before there were policy versions. -/
def legacyPreimage (entry : Ledger) : Bytes :=
  fields [decimal entry.seqNum, (normalizeTimestamp entry.timestamp).formatMicros, entry.agent,
    entry.tool, entry.decision, entry.policyRule, entry.payloadHash, entry.requestID,
    entry.prevHash]

/-- The hashed bytes determine the hashed fields, and an entry without a policy version has the
bytes it always had. -/
theorem preimage_faithful :
    (∀ a b : Ledger, a.preimage = b.preimage ↔ a.seqNum = b.seqNum ∧
      normalizeTimestamp a.timestamp = normalizeTimestamp b.timestamp ∧ a.agent = b.agent ∧
      a.tool = b.tool ∧ a.decision = b.decision ∧ a.policyRule = b.policyRule ∧
      a.payloadHash = b.payloadHash ∧ a.requestID = b.requestID ∧ a.prevHash = b.prevHash ∧
      a.policyVersion = b.policyVersion) ∧
    ∀ a : Ledger, { a with policyVersion := [] }.preimage = a.legacyPreimage := by
  refine ⟨fun a b => ⟨eq_of_preimage, fun h => ?_⟩, fun a => rfl⟩
  obtain ⟨hseq, ht, hagent, htool, hdec, hrule, hpay, hreq, hprev, hver⟩ := h
  rw [preimage, preimage, hashedFields, hashedFields, hseq, ht, hagent, htool, hdec, hrule, hpay,
    hreq, hprev, hver]

end Ledger
end KiteRail
