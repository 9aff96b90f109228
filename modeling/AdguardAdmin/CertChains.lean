import Mathlib.Data.List.Basic
/-!
# Chains of certificates

A certificate is signed with a key and names its issuer.  A verifier that trusts some roots
believes a certificate if a chain leads from it to a root: each certificate is signed by the
next one, which has to be a certificate of an authority, and none of them has run out or is for
another purpose.  Certificates that a peer sends along may stand in between.

* `trusted_direct` — where the roots have signed no other authorities, a chain has no more than
  two certificates, whatever is sent along.
-/

namespace CertChains

inductive Eku where
  | serverAuth
  | clientAuth
  | any
  deriving DecidableEq, Repr

/-- A certificate, over the keys `K` and the names `S` that it can be for. -/
structure Cert (K S : Type) where
  subject : String
  issuer : String
  publicKey : K
  signer : K
  notBefore : Int
  notAfter : Int
  isCA : Bool
  pathLength : Option Nat
  certSign : Bool
  ekus : List Eku
  sans : List S
  deriving DecidableEq, Repr

variable {K S : Type}

namespace Cert

def ValidAt (now : Int) (c : Cert K S) : Prop := c.notBefore ≤ now ∧ now ≤ c.notAfter

/-- A certificate that lists no purposes is for all of them. -/
def Allows (usage : Eku) (c : Cert K S) : Prop := c.ekus = [] ∨ Eku.any ∈ c.ekus ∨ usage ∈ c.ekus

/-- `parent` may stand behind `child` in a chain. -/
structure Issued (parent child : Cert K S) : Prop where
  signed : child.signer = parent.publicKey
  named : child.issuer = parent.subject
  authority : parent.isCA = true
  certSign : parent.certSign = true

end Cert

/-- A chain leads from a certificate to a root; `n` certificates stand between it and the one at
the end of which it is. -/
inductive Trusted (roots sent : List (Cert K S)) (now : Int) (usage : Eku) :
    Nat → Cert K S → Prop where
  | root {n : Nat} {c : Cert K S} (hmem : c ∈ roots) (hvalid : c.ValidAt now)
      (hallows : c.Allows usage) : Trusted roots sent now usage n c
  | step {n : Nat} {c parent : Cert K S} (hvalid : c.ValidAt now) (hallows : c.Allows usage)
      (hmem : parent ∈ roots ∨ parent ∈ sent) (hissued : parent.Issued c)
      (hlength : ∀ m, parent.pathLength = some m → n ≤ m)
      (hparent : Trusted roots sent now usage (n + 1) parent) : Trusted roots sent now usage n c

variable {roots sent : List (Cert K S)} {now : Int} {usage : Eku} {n : Nat} {c : Cert K S}

/-- A trusted certificate is valid. -/
theorem Trusted.valid (h : Trusted roots sent now usage n c) : c.ValidAt now := by
  cases h with
  | root hmem hvalid hallows => exact hvalid
  | step hvalid hallows hmem hissued hlength hparent => exact hvalid

theorem Trusted.allows (h : Trusted roots sent now usage n c) : c.Allows usage := by
  cases h with
  | root hmem hvalid hallows => exact hallows
  | step hvalid hallows hmem hissued hlength hparent => exact hallows

/-- **Without other authorities a chain is short.**  If what the roots have signed, among the
certificates that are sent, is no authority unless it is a root, then whatever is trusted is a
root or signed by a root that is trusted. -/
theorem trusted_direct
    (hleaf : ∀ root ∈ roots, ∀ c ∈ sent, c.signer = root.publicKey → c.isCA = true → c ∈ roots)
    (h : Trusted roots sent now usage n c) :
    c ∈ roots ∨ ∃ root ∈ roots, root.Issued c ∧ root.ValidAt now := by
  induction h with
  | root hmem hvalid hallows => exact .inl hmem
  | @step n c parent hvalid hallows hmem hissued hlength hparent ih =>
      have hroot : parent ∈ roots := by
        rcases ih with hroot | ⟨root, hroot, hsigned, -⟩
        · exact hroot
        · rcases hmem with hmem | hmem
          · exact hmem
          · exact hleaf root hroot parent hmem hsigned.signed hissued.authority
      exact .inr ⟨parent, hroot, hissued, hparent.valid⟩

end CertChains
