import OpStack.Fault.MerkleTree
import OpStack.Proofs.Config

namespace OpStack.Proofs.MerkleTree
open Eth Lib Fault MerkleNode List Config

variable (k : Bytes → Hash)

/-- The root of the tree of height `n` over the leaves; those that are missing are zero. -/
def treeRoot : Nat → List Hash → Hash
  | 0,leaves => leaves.headD (.fill 32 0)
  | n+1,leaves =>
    hashPair k (treeRoot n (leaves.take (2 ^ n))) (treeRoot n (leaves.drop (2 ^ n)))

/-- The root that a proof leads to from the leaf at an index. -/
def foldProof (leaf : Hash) (index : Nat) : List Hash → Hash
  | [] => leaf
  | sibling::proof =>
    foldProof (if index % 2 = 0 then hashPair k leaf sibling else hashPair k sibling leaf)
      (index / 2) proof

/-- The nodes that are there once the leaves are added: a node without leaves has no children. -/
def built : Nat → List Hash → MerkleNode
  | n,[] => .node (zeroHashes k n) .nil .nil
  | 0,x::_ => .node x .nil .nil
  | n+1,x::xs => branch k (built n ((x::xs).take (2 ^ n))) (built n ((x::xs).drop (2 ^ n)))

/-- The pairs that are hashed on the way from the leaf at an index to the root. -/
def hashed (leaf : Hash) (index : Nat) : List Hash → List (Hash × Hash)
  | [] => []
  | sibling::proof =>
    let pair := if index % 2 = 0 then (leaf,sibling) else (sibling,leaf)
    pair::hashed (hashPair k pair.1 pair.2) (index / 2) proof

variable {k} {n c i : Nat} {ls ps : List Hash} {t : MerkleNode} {x z : Hash}

theorem zeroHashes_eq : zeroHashes k n = treeRoot k n [] := by
  induction n with
  | zero => rfl
  | succ n ih => rw [zeroHashes,ih,treeRoot,take_nil,drop_nil]

theorem built_label : (built k n ls).label = treeRoot k n ls := by
  induction n generalizing ls with
  | zero => cases ls <;> rfl
  | succ n ih =>
    cases ls with
    | nil => exact zeroHashes_eq
    | cons x xs => rw [built,branch,label,ih,ih,treeRoot]

theorem built_branch (hne : ls ≠ []) : built k (n + 1) ls =
    branch k (built k n (ls.take (2 ^ n))) (built k n (ls.drop (2 ^ n))) := by
  cases ls with
  | nil => exact absurd rfl hne
  | cons x xs => rfl

theorem built_orNew : (built k n ls).orNew z = built k n ls := by
  cases n <;> cases ls <;> rfl

/-- The label that a new node gets does not matter. -/
theorem addLeaf_new (y z : Hash) : (MerkleNode.node y .nil .nil).addLeaf k x n c =
    (MerkleNode.node z .nil .nil).addLeaf k x n c := by
  cases n <;> rfl

theorem addLeaf_built : (built k (n + 1) ls).addLeaf k x (n + 1) c =
    if c * 2 ≤ 2 ^ (n + 1) then
      branch k ((built k n (ls.take (2 ^ n))).addLeaf k x n c) (built k n (ls.drop (2 ^ n)))
    else branch k (built k n (ls.take (2 ^ n)))
      ((built k n (ls.drop (2 ^ n))).addLeaf k x n (c - 2 ^ (n + 1) / 2)) := by
  cases ls with
  | nil =>
    simp only [built,take_nil,drop_nil,MerkleNode.addLeaf,orNew,
      addLeaf_new (zeroHashes k (15 - n)) (zeroHashes k n)]
  | cons y ys => simp only [built,branch,MerkleNode.addLeaf,built_orNew]

theorem built_addLeaf (hlen : ls.length < 2 ^ n) :
    (built k n ls).addLeaf k x n (ls.length + 1) = built k n (ls ++ [x]) := by
  induction n generalizing ls with
  | zero =>
    obtain rfl := length_eq_zero_iff.mp (Nat.lt_one_iff.mp hlen)
    rfl
  | succ n ih =>
    rw [addLeaf_built,built_branch (by simp)]
    by_cases hfits : ls.length < 2 ^ n
    · rw [if_pos (by omega),take_of_length_le (by omega),ih hfits,drop_of_length_le (by omega),
        take_of_length_le (by simp; omega),drop_of_length_le (by simp; omega)]
    · have hcount : ls.length + 1 - 2 ^ (n + 1) / 2 = (ls.drop (2 ^ n)).length + 1 := by
        simp
        omega
      rw [if_neg (by omega),hcount,ih (by simp; omega),take_append_of_le_length (by omega),
        drop_append_of_le_length (by omega)]

theorem foldProof_append : foldProof k x i (ps ++ [z]) = if i / 2 ^ ps.length % 2 = 0 then
    hashPair k (foldProof k x i ps) z else hashPair k z (foldProof k x i ps) := by
  induction ps generalizing x i with
  | nil => simp [foldProof]
  | cons p ps ih => simp [foldProof,ih,Nat.div_div_eq_div_mul,Nat.pow_succ,Nat.mul_comm]

theorem foldProof_add : foldProof k x (i + 2 ^ ps.length) ps = foldProof k x i ps := by
  induction ps generalizing x i with
  | nil => rfl
  | cons p ps ih =>
    have hmod : (i + 2 ^ (ps.length + 1)) % 2 = i % 2 := by omega
    have hdiv : (i + 2 ^ (ps.length + 1)) / 2 = i / 2 + 2 ^ ps.length := by omega
    simp only [foldProof,length_cons,hmod,hdiv,ih]

/-- Where no level collides, the root fixes the leaf and its proof. -/
theorem foldProof_inj {y : Hash} {qs : List Hash} (hlen : ps.length = qs.length)
    (hfree : ∀ s ∈ (hashed k x i ps).zip (hashed k y i qs),
      hashPair k s.1.1 s.1.2 = hashPair k s.2.1 s.2.2 → s.1 = s.2)
    (h : foldProof k x i ps = foldProof k y i qs) : x = y ∧ ps = qs := by
  induction ps generalizing x y i qs with
  | nil =>
    obtain rfl := length_eq_zero_iff.mp hlen.symm
    exact ⟨h,rfl⟩
  | cons p ps ih =>
    obtain ⟨q,qs,rfl⟩ := exists_cons_of_length_eq_add_one hlen.symm
    rw [hashed,hashed,zip_cons_cons,forall_mem_cons] at hfree
    rw [foldProof,foldProof] at h
    split at h
    all_goals
      rename_i hbit
      simp only [hbit,if_true] at hfree
      -- the levels above give one parent, so this level hashes one pair
      obtain ⟨hparent,rfl⟩ := ih (Nat.succ.inj hlen) hfree.2 h
      cases hfree.1 hparent
      exact ⟨rfl,rfl⟩

/-- The walk to a leaf that is there changes nothing, and its proof leads back to the root. -/
theorem built_proof (hlen : ls.length ≤ 2 ^ n) (hi : ls[i]? = some x) :
    ∃ proof,(built k n ls).proofAtIndex k n (i + 1) = (built k n ls,proof) ∧ proof.length = n ∧
      foldProof k x i proof = (built k n ls).label := by
  have hlt := lt_of_getElem? hi
  induction n generalizing ls i with
  | zero =>
    obtain ⟨y,rfl⟩ := length_eq_one_iff.mp (show ls.length = 1 by omega)
    obtain rfl : i = 0 := by omega
    cases hi
    exact ⟨[],rfl,rfl,rfl⟩
  | succ n ih =>
    rw [built_branch (ne_nil_of_length_pos (by omega)),branch,MerkleNode.proofAtIndex,
      built_orNew,built_orNew]
    by_cases hlow : i < 2 ^ n
    · obtain ⟨proof,hwalk,hcount,hfold⟩ := @ih i (ls.take (2 ^ n)) (by simp)
        (by rw [getElem?_take_of_lt hlow,hi]) (by simp; omega)
      rw [if_pos (by omega),hwalk]
      refine ⟨_,rfl,by simp [hcount],?_⟩
      rw [foldProof_append,hcount,hfold,Nat.div_eq_of_lt hlow]
      rfl
    · have hge := Nat.not_lt.mp hlow
      have hsub : i + 1 - 2 ^ (n + 1) / 2 = i - 2 ^ n + 1 := by omega
      have hbit : i / 2 ^ n % 2 = 1 := by
        rw [← Nat.sub_add_cancel hge,Nat.add_div_right _ (Nat.two_pow_pos n),
          Nat.div_eq_of_lt (by omega)]
      obtain ⟨proof,hwalk,hcount,hfold⟩ := @ih (i - 2 ^ n) (ls.drop (2 ^ n)) (by simp; omega)
        (by rw [getElem?_drop,Nat.add_sub_cancel' hge,hi]) (by simp; omega)
      rw [if_neg (by omega),hsub,hwalk]
      refine ⟨_,rfl,by simp [hcount],?_⟩
      rw [← foldProof_add,hcount,Nat.sub_add_cancel hge] at hfold
      rw [foldProof_append,hcount,if_neg (by omega),hfold]
      rfl

open BinaryMerkleTree

/-- The trees that calls lead to, with the leaves that were added. -/
inductive Run (k : Bytes → Hash) : List Hash → BinaryMerkleTree → Prop
  | new : Run k [] (newBinaryMerkleTree k)
  | add {ls m} (h : Run k ls m) (x : Hash) : Run k (ls ++ [x]) (m.addLeaf k x)
  | proof {ls m m' i proof} (h : Run k ls m) (hi : i < ls.length)
      (hproof : m.proofAtIndex k i = some (m',proof)) : Run k ls m'

/-- The call leaves the tree as it is, and its proof leads from the leaf to the root. -/
def Proves (k : Bytes → Hash) (m : BinaryMerkleTree) (i : Nat) (x : Hash) : Prop :=
  ∃ proof,m.proofAtIndex k i = some (m,proof) ∧ proof.length = 16 ∧
    foldProof k x i proof = m.rootHash

variable {m : BinaryMerkleTree} (hlen : ls.length ≤ 65535)
include hlen

theorem proof_correct (h : m.root = built k 16 ls) (hi : ls[i]? = some x) : Proves k m i x := by
  obtain ⟨proof,hwalk,hfold⟩ := built_proof (k := k) (show ls.length ≤ 2 ^ 16 by omega) hi
  have hlt := lt_of_getElem? hi
  rw [← h] at hwalk hfold
  refine ⟨proof,?_,hfold⟩
  rw [BinaryMerkleTree.proofAtIndex,if_neg (by omega),hwalk]

theorem Run.built (h : Run k ls m) : m.root = built k 16 ls ∧ m.leafCount = ls.length := by
  induction h with
  | new =>
    have hroot (n : Nat) : MerkleNode.rootHash k n = zeroHashes k n := by
      induction n with
      | zero => rfl
      | succ n ih => rw [MerkleNode.rootHash,ih,zeroHashes]
    exact ⟨by rw [newBinaryMerkleTree,hroot]; rfl,rfl⟩
  | @add ls m h x ih =>
    rw [length_append,length_singleton] at hlen ⊢
    obtain ⟨hroot,hcount⟩ := ih (by omega)
    refine ⟨?_,congrArg (· + 1) hcount⟩
    rw [BinaryMerkleTree.addLeaf,hroot,hcount,built_addLeaf (by omega)]
  | @proof ls m m' i proof h hi hproof ih =>
    obtain ⟨hroot,hcount⟩ := ih hlen
    obtain ⟨proof',heq,-⟩ := proof_correct hlen hroot (getElem?_eq_getElem hi)
    cases heq.symm.trans hproof
    exact ⟨hroot,hcount⟩

/-- After any calls the root is that of the leaves, and each leaf has its proof. -/
theorem run_correct (h : Run k ls m) :
    m.rootHash = treeRoot k 16 ls ∧ ∀ i x,ls[i]? = some x → Proves k m i x := by
  have hroot := (h.built hlen).1
  exact ⟨by rw [BinaryMerkleTree.rootHash,hroot,built_label],fun i x => proof_correct hlen hroot⟩

omit hlen

/-- Stands in for Keccak256. -/
def mix (bs : Bytes) : Hash :=
  hashOf (bs.foldl (fun acc b => (acc * 257 + b.toNat + 1) % 2 ^ 256) 0)

def twoLeaves : BinaryMerkleTree :=
  ((newBinaryMerkleTree mix).addLeaf mix (hashOf 1)).addLeaf mix (hashOf 2)

theorem twoLeaves_run : Run mix [hashOf 1,hashOf 2] twoLeaves := .add (.add .new _) _

/-- A proof is asked for between the second and the third leaf. -/
theorem run_correct_sample : ∃ m,Run mix [hashOf 1,hashOf 2,hashOf 3] m ∧
    m.rootHash = treeRoot mix 16 [hashOf 1,hashOf 2,hashOf 3] ∧ Proves mix m 1 (hashOf 2) := by
  obtain ⟨proof,hproof,-⟩ := (run_correct (by decide) twoLeaves_run).2 0 (hashOf 1) rfl
  have h := (twoLeaves_run.proof (by decide) hproof).add (hashOf 3)
  obtain ⟨hroot,hproves⟩ := run_correct (by decide) h
  exact ⟨_,h,hroot,hproves 1 (hashOf 2) rfl⟩

include hlen in
/-- A proof of any value that leads to the root is the proof of the leaf that was added. -/
theorem forged_proof_fails (h : Run k ls m) (hi : ls[i]? = some x) :
    ∃ proof,m.proofAtIndex k i = some (m,proof) ∧ ∀ y forged,forged.length = 16 →
      foldProof k y i forged = m.rootHash →
      (∀ s ∈ (hashed k y i forged).zip (hashed k x i proof),
        hashPair k s.1.1 s.1.2 = hashPair k s.2.1 s.2.2 → s.1 = s.2) →
      y = x ∧ forged = proof := by
  obtain ⟨proof,hproof,hcount,hfold⟩ := proof_correct hlen (h.built hlen).1 hi
  refine ⟨proof,hproof,?_⟩
  intro y forged hforged hroot hfree
  exact foldProof_inj (hforged.trans hcount.symm) hfree (hroot.trans hfold.symm)

/-- The proof of the second leaf is none of another value: the two walks hash no pairs that
collide. -/
theorem forged_proof_fails_sample : ∃ proof,twoLeaves.proofAtIndex mix 1 = some (twoLeaves,proof) ∧
    foldProof mix (hashOf 9) 1 proof ≠ twoLeaves.rootHash := by
  obtain ⟨proof,hproof,hforged⟩ :=
    forged_proof_fails (i := 1) (x := hashOf 2) (by decide) twoLeaves_run rfl
  have hfree : (twoLeaves.proofAtIndex mix 1).all (fun p => decide (p.2.length = 16 ∧
      ∀ s ∈ (hashed mix (hashOf 9) 1 p.2).zip (hashed mix (hashOf 2) 1 p.2),
        hashPair mix s.1.1 s.1.2 = hashPair mix s.2.1 s.2.2 → s.1 = s.2)) = true := by
    decide +kernel
  rw [hproof,Option.all_some,decide_eq_true_eq] at hfree
  refine ⟨proof,hproof,?_⟩
  intro hroot
  exact absurd (hforged _ proof hfree.1 hroot hfree.2).1 (by decide)

end OpStack.Proofs.MerkleTree
