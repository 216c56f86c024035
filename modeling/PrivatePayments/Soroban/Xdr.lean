import Mathlib.Data.List.Sort
import PrivatePayments.Library.Separates
import PrivatePayments.Soroban.Host

/-!
The values of a contract call as they travel: byte strings, 256-bit numbers in limbs, the
maps that structures are encoded as, and their XDR.
-/

namespace PrivatePayments.Soroban
open Bn254 Library

/-- The host's 256-bit signed integer, in two's complement. -/
abbrev I256 := BitVec 256

def fromBeBytes (bytes : List UInt8) : Nat := bytes.foldl (fun n byte => 256 * n + byte.toNat) 0

/-- `to_be_bytes` of a number of so many bytes. -/
def toBeBytes : Nat → Nat → List UInt8
  | 0, _ => []
  | width + 1, n => toBeBytes width (n / 256) ++ [UInt8.ofNat (n % 256)]

@[simp] theorem length_toBeBytes (width n : Nat) : (toBeBytes width n).length = width := by
  induction width generalizing n with
  | zero => rfl
  | succ width ih => rw [toBeBytes, List.length_append, ih, List.length_singleton]

theorem fromBeBytes_toBeBytes {width n : Nat} (fits : n < 256 ^ width) :
    fromBeBytes (toBeBytes width n) = n := by
  induction width generalizing n with
  | zero =>
    rw [Nat.pow_zero, Nat.lt_one_iff] at fits
    rw [fits]
    rfl
  | succ width ih =>
    have high : n / 256 < 256 ^ width := by
      rw [Nat.pow_succ] at fits
      exact Nat.div_lt_of_lt_mul (Nat.mul_comm _ _ ▸ fits)
    have low : (UInt8.ofNat (n % 256)).toNat = n % 256 := by
      rw [UInt8.toNat_ofNat']
      omega
    have split : fromBeBytes (toBeBytes (width + 1) n) =
        256 * fromBeBytes (toBeBytes width (n / 256)) + (UInt8.ofNat (n % 256)).toNat := by
      rw [toBeBytes, fromBeBytes, List.foldl_append]
      rfl
    rw [split, ih high, low]
    omega

theorem separates_toBeBytes (width : Nat) : Separates (· < 256 ^ width) (toBeBytes width) :=
  Separates.of_length (fun n _ => length_toBeBytes width n) fun n n' fits fits' same => by
    rw [← fromBeBytes_toBeBytes fits, same, fromBeBytes_toBeBytes fits']

def limb (v : BitVec 256) (place : Nat) : BitVec 64 := v.extractLsb' (64 * place) 64

def ofLimbs (hiHi hiLo loHi loLo : BitVec 64) : BitVec 256 := hiHi ++ hiLo ++ loHi ++ loLo

theorem getLsbD_limb (v : BitVec 256) (place i : Nat) (small : i < 64) :
    (limb v place).getLsbD i = v.getLsbD (64 * place + i) := by
  rw [limb, BitVec.getLsbD_extractLsb', decide_eq_true small, Bool.true_and]

theorem ofLimbs_limb (v : BitVec 256) : ofLimbs (limb v 3) (limb v 2) (limb v 1) (limb v 0) = v := by
  apply BitVec.eq_of_getLsbD_eq
  intro i small
  rw [ofLimbs, BitVec.getLsbD_append, BitVec.getLsbD_append, BitVec.getLsbD_append]
  by_cases first : i < 64
  · rw [if_pos first, getLsbD_limb v 0 i first, Nat.mul_zero, Nat.zero_add]
  · rw [if_neg first]
    by_cases second : i - 64 < 64
    · rw [if_pos second, getLsbD_limb v 1 _ second]
      exact congrArg v.getLsbD (by omega)
    · rw [if_neg second]
      by_cases third : i - 64 - 64 < 64
      · rw [if_pos third, getLsbD_limb v 2 _ third]
        exact congrArg v.getLsbD (by omega)
      · rw [if_neg third, getLsbD_limb v 3 _ (by omega)]
        exact congrArg v.getLsbD (by omega)

theorem limb_ofLimbs (hiHi hiLo loHi loLo : BitVec 64) :
    limb (ofLimbs hiHi hiLo loHi loLo) 3 = hiHi ∧ limb (ofLimbs hiHi hiLo loHi loLo) 2 = hiLo ∧
      limb (ofLimbs hiHi hiLo loHi loLo) 1 = loHi ∧ limb (ofLimbs hiHi hiLo loHi loLo) 0 = loLo := by
  refine ⟨?_, ?_, ?_, ?_⟩ <;>
    refine BitVec.eq_of_getLsbD_eq fun i small => ?_ <;>
    rw [getLsbD_limb _ _ i small, ofLimbs, BitVec.getLsbD_append, BitVec.getLsbD_append, BitVec.getLsbD_append]
  · rw [if_neg (by omega), if_neg (by omega), if_neg (by omega)]
    exact congrArg hiHi.getLsbD (by omega)
  · rw [if_neg (by omega), if_neg (by omega), if_pos (by omega)]
    exact congrArg hiLo.getLsbD (by omega)
  · rw [if_neg (by omega), if_pos (by omega)]
    exact congrArg loHi.getLsbD (by omega)
  · rw [if_pos (by omega)]
    exact congrArg loLo.getLsbD (by omega)

/-- The kinds of address, each by its 32 bytes as the number they spell. -/
inductive ScAddress where
  | account (key : U256)
  | contract (id : U256)
  | muxedAccount (id : BitVec 64) (key : U256)
  | claimableBalance (id : U256)
  | liquidityPool (id : U256)
  deriving DecidableEq

/-- The host's address: only accounts and contracts have one. -/
def Address.ofScAddress : ScAddress → Option Address
  | .account key => some ⟨2 * key.toNat⟩
  | .contract id => some ⟨2 * id.toNat + 1⟩
  | _ => none

def Address.toScAddress (a : Address) : ScAddress :=
  if a.id % 2 = 0 then .account (BitVec.ofNat 256 (a.id / 2)) else .contract (BitVec.ofNat 256 (a.id / 2))

theorem Address.toScAddress_of {s : ScAddress} {a : Address} (host : Address.ofScAddress s = some a) :
    a.toScAddress = s := by
  cases s with
  | account key =>
    cases host
    rw [toScAddress, if_pos (by simp), Nat.mul_div_cancel_left _ (by decide), BitVec.ofNat_toNat, BitVec.setWidth_eq]
  | contract id =>
    cases host
    rw [toScAddress, if_neg (by simp), show (2 * id.toNat + 1) / 2 = id.toNat by omega,
      BitVec.ofNat_toNat, BitVec.setWidth_eq]
  | muxedAccount id key => cases host
  | claimableBalance id => cases host
  | liquidityPool id => cases host

/-- The Soroban values that occur in a call; the keys of a map are symbols. -/
inductive ScVal where
  | bytes (content : List UInt8)
  | u256 (hiHi hiLo loHi loLo : BitVec 64)
  | i256 (hiHi hiLo loHi loLo : BitVec 64)
  | address (a : ScAddress)
  | vec (items : List ScVal)
  | map (entries : List (String × ScVal))

/-- The host value of a `U256`. -/
def ScVal.ofU256 (v : U256) : ScVal := .u256 (limb v 3) (limb v 2) (limb v 1) (limb v 0)

/-- The host value of an `I256`. -/
def ScVal.ofI256 (v : I256) : ScVal := .i256 (limb v 3) (limb v 2) (limb v 1) (limb v 0)

theorem ScVal.ofI256_ofLimbs (hiHi hiLo loHi loLo : BitVec 64) :
    ofI256 (ofLimbs hiHi hiLo loHi loLo) = .i256 hiHi hiLo loHi loLo := by
  obtain ⟨h3, h2, h1, h0⟩ := limb_ofLimbs hiHi hiLo loHi loLo
  rw [ofI256, h3, h2, h1, h0]

/-- A tag or a length. -/
def xdrWord (n : Nat) : List UInt8 := toBeBytes 4 n

def xdrHyper (limb : BitVec 64) : List UInt8 := toBeBytes 8 limb.toNat

/-- Bytes of variable length: the length, the bytes and zeros up to a multiple of four. -/
def xdrVarBytes (bytes : List UInt8) : List UInt8 :=
  xdrWord bytes.length ++ bytes ++ List.replicate ((4 - bytes.length % 4) % 4) 0

def ScAddress.toXdr : ScAddress → List UInt8
  | .account key => xdrWord 0 ++ xdrWord 0 ++ toBeBytes 32 key.toNat
  | .contract id => xdrWord 1 ++ toBeBytes 32 id.toNat
  | .muxedAccount id key => xdrWord 2 ++ xdrHyper id ++ toBeBytes 32 key.toNat
  | .claimableBalance id => xdrWord 3 ++ xdrWord 0 ++ toBeBytes 32 id.toNat
  | .liquidityPool id => xdrWord 4 ++ toBeBytes 32 id.toNat

def xdrSymbol (text : String) : List UInt8 := xdrWord 15 ++ xdrVarBytes text.toUTF8.toList

mutual

/-- `to_xdr`: the tag of the kind of value, then its content. -/
def ScVal.toXdr : ScVal → List UInt8
  | .bytes content => xdrWord 13 ++ xdrVarBytes content
  | .u256 hiHi hiLo loHi loLo => xdrWord 11 ++ (xdrHyper hiHi ++ (xdrHyper hiLo ++ (xdrHyper loHi ++ xdrHyper loLo)))
  | .i256 hiHi hiLo loHi loLo => xdrWord 12 ++ (xdrHyper hiHi ++ (xdrHyper hiLo ++ (xdrHyper loHi ++ xdrHyper loLo)))
  | .address a => xdrWord 18 ++ a.toXdr
  | .vec items => xdrWord 16 ++ (xdrWord 1 ++ (xdrWord items.length ++ itemsToXdr items))
  | .map entries => xdrWord 17 ++ (xdrWord 1 ++ (xdrWord entries.length ++ entriesToXdr entries))

def itemsToXdr : List ScVal → List UInt8
  | [] => []
  | item :: rest => item.toXdr ++ itemsToXdr rest

def entriesToXdr : List (String × ScVal) → List UInt8
  | [] => []
  | entry :: rest => entryToXdr entry ++ entriesToXdr rest

def entryToXdr : String × ScVal → List UInt8
  | (key, val) => xdrSymbol key ++ val.toXdr

end

/-- `sorted_map`: the entries in the order of their keys. -/
def sortedMap (entries : List (String × ScVal)) : ScVal :=
  .map (entries.mergeSort fun a b => decide (a.1 ≤ b.1))

theorem sortedMap_eq {entries : List (String × ScVal)}
    (sorted : (entries.map Prod.fst).Pairwise fun a b => decide (a ≤ b) = true) :
    sortedMap entries = .map entries :=
  congrArg ScVal.map (List.mergeSort_of_pairwise (List.pairwise_map.mp sorted))

section Separation

theorem separates_xdrHyper : Separates (fun _ => True) xdrHyper := by
  refine Separates.of_length (n := 8) (fun limb _ => length_toBeBytes 8 _) fun a b _ _ same => ?_
  have values := congrArg fromBeBytes same
  rw [xdrHyper, xdrHyper, fromBeBytes_toBeBytes (by have := a.isLt; omega),
    fromBeBytes_toBeBytes (by have := b.isLt; omega)] at values
  exact BitVec.eq_of_toNat_eq values

theorem separates_bytes32 : Separates (fun _ => True) fun v : U256 => toBeBytes 32 v.toNat := by
  refine Separates.of_length (n := 32) (fun v _ => length_toBeBytes 32 _) fun a b _ _ same => ?_
  have values := congrArg fromBeBytes same
  rw [fromBeBytes_toBeBytes (by have := a.isLt; omega), fromBeBytes_toBeBytes (by have := b.isLt; omega)] at values
  exact BitVec.eq_of_toNat_eq values

theorem separates_xdrVarBytes : Separates (fun bytes : List UInt8 => bytes.length < 2 ^ 32) xdrVarBytes := by
  suffices prefixed : Separates (fun bytes : List UInt8 => bytes.length < 2 ^ 32) fun bytes =>
      xdrWord bytes.length ++ bytes from
    prefixed.followed _
  intro a b rest rest' fits fits' same
  rw [List.append_assoc, List.append_assoc] at same
  obtain ⟨length, tail⟩ := separates_toBeBytes 4 _ _ _ _ (show a.length < 256 ^ 4 by omega)
    (show b.length < 256 ^ 4 by omega) same
  exact List.append_inj tail length

def ScAddress.kind : ScAddress → Nat
  | .account _ => 0
  | .contract _ => 1
  | .muxedAccount _ _ => 2
  | .claimableBalance _ => 3
  | .liquidityPool _ => 4

def ScAddress.body : ScAddress → List UInt8
  | .account key => xdrWord 0 ++ toBeBytes 32 key.toNat
  | .contract id => toBeBytes 32 id.toNat
  | .muxedAccount id key => xdrHyper id ++ toBeBytes 32 key.toNat
  | .claimableBalance id => xdrWord 0 ++ toBeBytes 32 id.toNat
  | .liquidityPool id => toBeBytes 32 id.toNat

theorem ScAddress.toXdr_eq (a : ScAddress) : a.toXdr = xdrWord a.kind ++ a.body := by
  cases a <;> simp only [toXdr, kind, body, List.append_assoc]

theorem ScAddress.kind_lt (a : ScAddress) : a.kind < 256 ^ 4 := by
  cases a <;> simp only [kind] <;> decide

theorem separates_scAddress : Separates (fun _ => True) ScAddress.toXdr := by
  intro a a' rest rest' _ _ same
  rw [a.toXdr_eq, a'.toXdr_eq, List.append_assoc, List.append_assoc] at same
  obtain ⟨kinds, bodies⟩ := separates_toBeBytes 4 _ _ _ _ a.kind_lt a'.kind_lt same
  cases a with
  | account key =>
    cases a' with
    | account key' =>
      obtain ⟨rfl, rests⟩ := separates_bytes32.after (xdrWord 0) _ _ _ _ trivial trivial bodies
      exact ⟨rfl, rests⟩
    | contract _ | muxedAccount _ _ | claimableBalance _ | liquidityPool _ => cases kinds
  | contract id =>
    cases a' with
    | contract id' =>
      obtain ⟨rfl, rests⟩ := separates_bytes32 _ _ _ _ trivial trivial bodies
      exact ⟨rfl, rests⟩
    | account _ | muxedAccount _ _ | claimableBalance _ | liquidityPool _ => cases kinds
  | muxedAccount id key =>
    cases a' with
    | muxedAccount id' key' =>
      obtain ⟨pairs, rests⟩ := separates_xdrHyper.seq separates_bytes32 (id, key) (id', key') _ _ ⟨trivial, trivial⟩
        ⟨trivial, trivial⟩ bodies
      obtain ⟨rfl, rfl⟩ := Prod.mk.inj pairs
      exact ⟨rfl, rests⟩
    | account _ | contract _ | claimableBalance _ | liquidityPool _ => cases kinds
  | claimableBalance id =>
    cases a' with
    | claimableBalance id' =>
      obtain ⟨rfl, rests⟩ := separates_bytes32.after (xdrWord 0) _ _ _ _ trivial trivial bodies
      exact ⟨rfl, rests⟩
    | account _ | contract _ | muxedAccount _ _ | liquidityPool _ => cases kinds
  | liquidityPool id =>
    cases a' with
    | liquidityPool id' =>
      obtain ⟨rfl, rests⟩ := separates_bytes32 _ _ _ _ trivial trivial bodies
      exact ⟨rfl, rests⟩
    | account _ | contract _ | muxedAccount _ _ | claimableBalance _ => cases kinds

theorem separates_limbs : Separates (fun _ => True) fun limbs : BitVec 64 × BitVec 64 × BitVec 64 × BitVec 64 =>
    xdrHyper limbs.1 ++ (xdrHyper limbs.2.1 ++ (xdrHyper limbs.2.2.1 ++ xdrHyper limbs.2.2.2)) := by
  intro a a' rest rest' _ _ same
  exact separates_xdrHyper.seq (separates_xdrHyper.seq (separates_xdrHyper.seq separates_xdrHyper)) a a' rest rest'
    ⟨trivial, trivial, trivial, trivial⟩ ⟨trivial, trivial, trivial, trivial⟩ same

end Separation

namespace Host

variable {σ ε : Type}

/-- `zero.sub(v)`, which traps on the least number. -/
def i256Neg (v : I256) : Host σ ε I256 := if v = BitVec.intMin 256 then throw .trap else pure (-v)

/-- `U256::sub`, which traps below zero. -/
def u256Sub (a b : U256) : Host σ ε U256 := if a.toNat < b.toNat then throw .trap else pure (a - b)

/-- The result of a call to another contract, which traps when that call fails. -/
def called {α : Type} (result : Option α) : Host σ ε α :=
  match result with
  | some a => pure a
  | none => throw .trap

@[simp] theorem run_called_some {α : Type} (a : α) (env : Env σ) :
    (called (some a) : Host σ ε α).run env = .ok (a, env) := rfl

@[simp] theorem run_called_none {α : Type} (env : Env σ) :
    (called none : Host σ ε α).run env = .error .trap := rfl

theorem run_i256Neg {v : I256} (negatable : v ≠ BitVec.intMin 256) (env : Env σ) :
    (i256Neg v : Host σ ε I256).run env = .ok (-v, env) := by
  rw [i256Neg, if_neg negatable]
  rfl

theorem run_u256Sub {a b : U256} (enough : b.toNat ≤ a.toNat) (env : Env σ) :
    (u256Sub a b : Host σ ε U256).run env = .ok (a - b, env) := by
  rw [u256Sub, if_neg (Nat.not_lt.mpr enough)]
  rfl

end Host

end PrivatePayments.Soroban
