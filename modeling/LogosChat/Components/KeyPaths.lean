import LogosChat.Components.KeyVault

/-!
# Where the key files are

An account's name is a component of every path to its keys.  The names `parse_alias` accepts have no
separator in them, but two of them are no names of entries: `.` is the vault itself and `..` is what it
lies in.
-/

namespace LogosChat.Components

open Reasoning

variable (cwd : Place) (dir : String)

/-! ## Accepted names -/

theorem slash_not_mem_of_parseAlias {text name : String} {number : UInt32}
    (h : parseAlias text = .ok (name, number)) : '/' ∉ name.toList := by
  intro hmem
  have hchar := List.all_eq_true.mp (parseAlias_eq_ok h).2.1 '/' hmem
  revert hchar
  decide

/-- An accepted name is the name of an entry unless it is one of the two that are not. -/
theorem isName_iff_of_parseAlias {text name : String} {number : UInt32}
    (h : parseAlias text = .ok (name, number)) :
    FsPath.IsName name ↔ name ≠ "." ∧ name ≠ ".." := by
  have hempty : name ≠ "" := by
    rintro rfl
    exact (parseAlias_eq_ok h).1 rfl
  exact and_iff_right hempty

/-! ## The files -/

/-- The place of an account's directory, of its key and of an installation's key. -/
def accountPlace (name : String) : Place := FsPath.resolve cwd (accountDir dir name)
def accountKeyPlace (name : String) : Place := FsPath.resolve cwd (accountPath dir name)
def installationPlace (name : String) (number : UInt32) : Place :=
  FsPath.resolve cwd (installationPath dir name number)

theorem toList_keyFileName (number : UInt32) :
    (keyFileName number).toList = Nat.toDigits 10 number.toNat ++ ['.', 'k', 'e', 'y'] := by
  have hrepr : (toString number).toList = Nat.toDigits 10 number.toNat := Nat.toList_repr
  rw [keyFileName, String.toList_append, String.toList_append, hrepr, List.append_assoc]
  rfl

theorem keyFileName_inj {n m : UInt32} (h : keyFileName n = keyFileName m) : n = m := by
  have hchars := congrArg String.toList h
  rw [toList_keyFileName, toList_keyFileName] at hchars
  -- the number is read back from its digits
  have hvalue := congrArg (Nat.ofDigitChars 10 · 0) (List.append_cancel_right hchars)
  rw [Nat.ofDigitChars_toDigits (by omega) (by omega), Nat.ofDigitChars_toDigits (by omega) (by omega)]
    at hvalue
  exact UInt32.toNat_inj.mp hvalue

theorem slash_not_mem_keyFileName (number : UInt32) : '/' ∉ (keyFileName number).toList := by
  rw [toList_keyFileName]
  intro hmem
  rcases List.mem_append.mp hmem with hdigit | hext
  · have hisDigit := Nat.isDigit_of_mem_toDigits (by omega) (by omega) hdigit
    revert hisDigit
    decide
  · revert hext
    decide

theorem isName_keyFileName (number : UInt32) : FsPath.IsName (keyFileName number) := by
  have hlong : 4 ≤ (keyFileName number).toList.length := by
    rw [toList_keyFileName, List.length_append]
    exact Nat.le_add_left 4 _
  refine ⟨?_, ?_, ?_⟩ <;>
  · intro heq
    rw [heq] at hlong
    revert hlong
    decide

theorem accountPlace_eq {name : String} (h : '/' ∉ name.toList) :
    accountPlace cwd dir name = FsPath.enter (FsPath.resolve cwd dir) name :=
  FsPath.resolve_join cwd dir h

theorem accountKeyPlace_eq (name : String) :
    accountKeyPlace cwd dir name = accountPlace cwd dir name ++ [accountFile] := by
  rw [accountKeyPlace, accountPath, FsPath.resolve_join _ _ (by decide),
    FsPath.enter_of_isName ⟨by decide, by decide, by decide⟩]
  rfl

theorem installationPlace_eq (name : String) (number : UInt32) : installationPlace cwd dir name number =
    accountPlace cwd dir name ++ [installationsDir] ++ [keyFileName number] := by
  rw [installationPlace, installationPath, FsPath.resolve_join _ _ (slash_not_mem_keyFileName number),
    FsPath.resolve_join _ _ (by decide), FsPath.enter_of_isName (isName_keyFileName number),
    FsPath.enter_of_isName ⟨by decide, by decide, by decide⟩]
  rfl

/-! ## Aliases kept apart -/

/-- The directory of the account is an entry of the vault: not the vault, nor anything outside it. -/
def InVault (name : String) : Prop :=
  ∃ entry, accountPlace cwd dir name = FsPath.resolve cwd dir ++ [entry]

/-- Two installations have their files in the vault, and no file in common but the key of an account that
is the same. -/
structure KeptApart (name name' : String) (number number' : UInt32) : Prop where
  inVault : InVault cwd dir name
  inVault' : InVault cwd dir name'
  installations : installationPlace cwd dir name number ≠ installationPlace cwd dir name' number'
  account : installationPlace cwd dir name number ≠ accountKeyPlace cwd dir name'
  account' : installationPlace cwd dir name' number' ≠ accountKeyPlace cwd dir name
  accounts : name ≠ name' → accountKeyPlace cwd dir name ≠ accountKeyPlace cwd dir name'

section Names

variable {cwd dir} {name name' : String} {number number' : UInt32}

theorem inVault_iff (h : '/' ∉ name.toList) : InVault cwd dir name ↔ FsPath.IsName name := by
  rw [InVault, accountPlace_eq cwd dir h]
  exact FsPath.enter_eq_concat_iff _ _

theorem accountPlace_of_isName (h : '/' ∉ name.toList) (hname : FsPath.IsName name) :
    accountPlace cwd dir name = FsPath.resolve cwd dir ++ [name] := by
  rw [accountPlace_eq cwd dir h, FsPath.enter_of_isName hname]

theorem keptApart_of_isName (h : '/' ∉ name.toList) (h' : '/' ∉ name'.toList)
    (hname : FsPath.IsName name) (hname' : FsPath.IsName name')
    (hne : (name, number) ≠ (name', number')) : KeptApart cwd dir name name' number number' where
  inVault := (inVault_iff h).mpr hname
  inVault' := (inVault_iff h').mpr hname'
  installations := by
    intro heq
    rw [installationPlace_eq, installationPlace_eq, accountPlace_of_isName h hname,
      accountPlace_of_isName h' hname'] at heq
    simp only [List.append_assoc, List.append_cancel_left_eq, List.cons_append, List.nil_append,
      List.cons.injEq, true_and, and_true] at heq
    exact hne (Prod.ext heq.1 (keyFileName_inj heq.2))
  -- the two kinds of files are at different depths
  account := by
    intro heq
    rw [installationPlace_eq, accountKeyPlace_eq, accountPlace_of_isName h hname,
      accountPlace_of_isName h' hname'] at heq
    simpa using congrArg List.length heq
  account' := by
    intro heq
    rw [installationPlace_eq, accountKeyPlace_eq, accountPlace_of_isName h hname,
      accountPlace_of_isName h' hname'] at heq
    simpa using congrArg List.length heq
  accounts := by
    intro hnames heq
    rw [accountKeyPlace_eq, accountKeyPlace_eq, accountPlace_of_isName h hname,
      accountPlace_of_isName h' hname'] at heq
    simp only [List.append_assoc, List.append_cancel_left_eq, List.cons_append, List.nil_append,
      List.cons.injEq, and_true] at heq
    exact hnames heq

end Names

/-- Wherever the vault is, two accepted aliases of different installations are kept apart in it exactly if
neither account is called `.` or `..`. -/
theorem aliases_keptApart_iff (cwd : Place) (dir : String) {text text' name name' : String}
    {number number' : UInt32} (h : parseAlias text = .ok (name, number))
    (h' : parseAlias text' = .ok (name', number')) (hne : (name, number) ≠ (name', number')) :
    KeptApart cwd dir name name' number number' ↔
      (name ≠ "." ∧ name ≠ "..") ∧ name' ≠ "." ∧ name' ≠ ".." := by
  have hslash := slash_not_mem_of_parseAlias h
  have hslash' := slash_not_mem_of_parseAlias h'
  rw [← isName_iff_of_parseAlias h, ← isName_iff_of_parseAlias h']
  constructor
  · intro hapart
    exact ⟨(inVault_iff hslash).mp hapart.inVault, (inVault_iff hslash').mp hapart.inVault'⟩
  · rintro ⟨hname, hname'⟩
    exact keptApart_of_isName hslash hslash' hname hname' hne

theorem saro_installations_keptApart :
    parseAlias "saro" = .ok ("saro", 1) ∧ parseAlias "saro:2" = .ok ("saro", 2) ∧
      KeptApart [] "/home/vault" "saro" "saro" 1 2 := by
  have h : parseAlias "saro" = .ok ("saro", 1) := by decide
  have h' : parseAlias "saro:2" = .ok ("saro", 2) := by decide
  exact ⟨h, h', (aliases_keptApart_iff [] "/home/vault" h h' (by decide)).mpr (by decide)⟩

/-- The keys of `..` are written beside the vault. -/
theorem dotdot_outside_vault :
    parseAlias ".." = .ok ("..", 1) ∧ FsPath.resolve [] "/home/vault" = ["home", "vault"] ∧
      accountKeyPlace [] "/home/vault" ".." = ["home", "account.key"] ∧
      installationPlace [] "/home/vault" ".." 1 = ["home", "installations", "1.key"] := by
  decide +kernel

end LogosChat.Components
