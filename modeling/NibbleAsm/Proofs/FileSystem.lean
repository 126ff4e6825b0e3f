import NibbleAsm.FileSystem
import NibbleAsm.Proofs.Words

/-! Files. Writing changes what stands at one place and nothing else; that place is never a
directory, and what is written under a path is read under it. A name without a slash leads to the
working directory. In a tree, where everything stands in a directory, a path that leads to a file
ends in a name, and so has a stem. -/

namespace NibbleAsm

namespace Path

theorem slash_not_mem_of_mem_components {path name : String} (h : name ∈ components path) :
    '/' ∉ name.toList := by
  obtain ⟨w, hw, rfl⟩ := List.mem_map.1 h
  rw [String.toList_ofList]
  intro hslash
  have hsep := (Text.of_mem_words hw).2 '/' hslash
  simp at hsep

theorem components_of_no_slash {name : String} (hne : name ≠ "") (h : '/' ∉ name.toList) :
    components name = [name] := by
  have hsep : ∀ c ∈ name.toList, (c == '/') = false := by
    intro c hc
    rw [beq_eq_false_iff_ne]
    rintro rfl
    exact h hc
  unfold components
  rw [Text.words_of_no_sep (by simpa using hne) hsep]
  simp

theorem endsInSlash_of_components_eq_nil {path : String} (hne : path ≠ "")
    (h : components path = []) : endsInSlash path = true := by
  unfold components at h
  have hslash := Text.words_eq_nil_iff.1 (List.map_eq_nil_iff.1 h)
  have hlist : path.toList ≠ [] := by simpa using hne
  unfold endsInSlash
  rw [List.getLast?_eq_some_getLast hlist]
  have hlast := hslash _ (List.getLast_mem hlist)
  simpa using hlast

/-- The path ends in this name, and what stands before the name, if anything, ends in a slash. -/
def EndsIn (path name : String) : Prop :=
  name ≠ "" ∧ '/' ∉ name.toList ∧
    ∃ front, path.toList = front ++ name.toList ∧ ∀ c, front.getLast? = some c → c = '/'

/-- The stem of a name is what stands before its last dot. A dot at the front does not count, and a
name without any other is its own stem. -/
def IsStem (name stem : String) : Prop :=
  (∃ ext, name.toList = stem.toList ++ '.' :: ext ∧ '.' ∉ ext ∧ stem ≠ "") ∨
    stem = name ∧ '.' ∉ name.toList.tail

theorem endsIn_of_getLast?_components {path name : String}
    (h : (components path).getLast? = some name) (hslash : endsInSlash path = false) :
    EndsIn path name := by
  have hmem := List.mem_of_getLast? h
  unfold components at h
  rw [List.getLast?_map] at h
  obtain ⟨w, hw, rfl⟩ := Option.map_eq_some_iff.1 h
  have hlast : ∀ c, path.toList.getLast? = some c → (c == '/') = false := by
    intro c hc
    simpa [endsInSlash, hc] using hslash
  obtain ⟨front, hpath, hfront⟩ := Text.exists_front_of_getLast?_words hlast hw
  refine ⟨?_, slash_not_mem_of_mem_components hmem, front, ?_, ?_⟩
  · have hne := (Text.of_mem_words (List.mem_of_getLast? hw)).1
    simpa using hne
  · rw [String.toList_ofList, hpath]
  · intro c hc
    simpa using hfront c hc

/-- A name is cut behind its last dot. -/
theorem exists_after_lastDot (name : List Char) :
    ∃ ext, name = (name.reverse.dropWhile (· != '.')).reverse ++ ext ∧ '.' ∉ ext ∧
      ∀ c, (name.reverse.dropWhile (· != '.')).head? = some c → c = '.' := by
  refine ⟨(name.reverse.takeWhile (· != '.')).reverse, ?_, ?_, ?_⟩
  · rw [← List.reverse_append, List.takeWhile_append_dropWhile, List.reverse_reverse]
  · intro hdot
    have hne := List.mem_takeWhile_imp (List.mem_reverse.1 hdot)
    simp at hne
  · intro c hc
    simpa using Text.not_sep_of_head?_dropWhile hc

theorem isStem_dropExtension (name : String) :
    IsStem name (String.ofList (dropExtension name.toList)) := by
  obtain ⟨ext, hcut, hext, hdot⟩ := exists_after_lastDot name.toList
  unfold dropExtension IsStem
  split
  next hnone =>
    rw [hnone, List.reverse_nil, List.nil_append] at hcut
    right
    refine ⟨String.ofList_toList, fun hmem => hext ?_⟩
    rw [← hcut]
    exact List.mem_of_mem_tail hmem
  next c hone =>
    rw [hone, List.reverse_singleton, List.singleton_append] at hcut
    right
    refine ⟨String.ofList_toList, fun hmem => hext ?_⟩
    rw [hcut] at hmem
    exact hmem
  next c before hbefore hmore =>
    obtain rfl := hdot c (by rw [hmore]; rfl)
    rw [hmore, List.reverse_cons, List.append_assoc, List.singleton_append] at hcut
    left
    refine ⟨ext, by rw [String.toList_ofList]; exact hcut, hext, ?_⟩
    intro hempty
    apply hbefore
    simpa using hempty

theorem stem?_eq {path name : String} (h : (components path).getLast? = some name)
    (hdot : name ≠ ".") :
    stem? path =
      if name = ".." then none else some (String.ofList (dropExtension name.toList)) := by
  obtain ⟨names, hnames⟩ := List.getLast?_eq_some_iff.1 h
  have hlast : ((components path).filter (· != ".")).getLast? = some name := by
    have hkept : [name].filter (· != ".") = [name] := by simp [hdot]
    rw [hnames, List.filter_append, hkept, List.getLast?_concat]
  unfold stem?
  rw [hlast]
  split
  next hnone => cases hnone
  next heq => rw [if_pos (Option.some.inj heq)]
  next hdots heq =>
    obtain rfl := Option.some.inj heq
    rw [if_neg hdots]

theorem isStem_of_stem? {path name stem : String} (h : (components path).getLast? = some name)
    (hdot : name ≠ ".") (hstem : stem? path = some stem) : IsStem name stem := by
  rw [stem?_eq h hdot] at hstem
  split_ifs at hstem
  obtain rfl := Option.some.inj hstem
  exact isStem_dropExtension name

theorem IsStem.slash_not_mem {name stem : String} (h : IsStem name stem)
    (hname : '/' ∉ name.toList) : '/' ∉ stem.toList := by
  rcases h with ⟨ext, hext, -⟩ | ⟨rfl, -⟩
  · intro hslash
    apply hname
    rw [hext]
    exact List.mem_append_left _ hslash
  · exact hname

end Path

namespace FileSystem

variable {fs : FileSystem} {path : String} {place p q : Place}

theorem lookup_filter_ne (h : q ≠ p) (nodes : List (Place × Node)) :
    (nodes.filter (·.1 != p)).lookup q = nodes.lookup q := by
  induction nodes with
  | nil => rfl
  | cons entry nodes ih =>
    obtain ⟨r, n⟩ := entry
    by_cases hr : r = p
    · have hqr : (q == r) = false := by simpa [hr] using h
      rw [List.filter_cons_of_neg (by simp [hr]), ih, List.lookup_cons, hqr]
    · rw [List.filter_cons_of_pos (by simpa using hr), List.lookup_cons, List.lookup_cons, ih]

theorem node?_put_self (fs : FileSystem) (hp : p ≠ []) (n : Node) :
    (fs.put p n).node? p = some n := by
  simp [node?, put, hp]

theorem node?_put_of_ne (fs : FileSystem) (h : q ≠ p) (n : Node) :
    (fs.put p n).node? q = fs.node? q := by
  have hqp : (q == p) = false := by simpa using h
  unfold node? put
  dsimp only
  rw [List.lookup_cons, hqp, lookup_filter_ne h]

theorem walk_cons_eq_ok_iff {here : Place} {name : String} {names : List String} :
    fs.walk here (name :: names) = .ok place ↔
      fs.node? here = some .directory ∧ name.utf8ByteSize ≤ nameLimit ∧
        fs.walk (enter here name) names = .ok place := by
  rw [walk]
  rcases hnode : fs.node? here with _ | content | _
  · simp
  · simp
  · by_cases hlimit : nameLimit < name.utf8ByteSize
    · simp [hlimit, Nat.not_le.2 hlimit]
    · simp [hlimit, Nat.not_lt.1 hlimit]

theorem walk_concat_eq_ok_iff {here : Place} {names : List String} {name : String} :
    fs.walk here (names ++ [name]) = .ok place ↔
      ∃ p, fs.walk here names = .ok p ∧ fs.node? p = some .directory ∧
        name.utf8ByteSize ≤ nameLimit ∧ place = enter p name := by
  induction names generalizing here with
  | nil =>
    rw [List.nil_append, walk_cons_eq_ok_iff]
    constructor
    · rintro ⟨hnode, hlimit, hplace⟩
      exact ⟨here, rfl, hnode, hlimit, (Except.ok.inj hplace).symm⟩
    · rintro ⟨p, hp, hnode, hlimit, rfl⟩
      obtain rfl := Except.ok.inj hp
      exact ⟨hnode, hlimit, rfl⟩
  | cons first names ih =>
    rw [List.cons_append, walk_cons_eq_ok_iff, ih]
    constructor
    · rintro ⟨hnode, hlimit, p, hp, hrest⟩
      exact ⟨p, walk_cons_eq_ok_iff.2 ⟨hnode, hlimit, hp⟩, hrest⟩
    · rintro ⟨p, hp, hrest⟩
      obtain ⟨hnode, hlimit, hp⟩ := walk_cons_eq_ok_iff.1 hp
      exact ⟨hnode, hlimit, p, hp, hrest⟩

/-- A walk passes directories only, so what is written elsewhere does not change it. -/
theorem walk_put {here : Place} {names : List String} (h : fs.walk here names = .ok place)
    (hp : fs.node? p ≠ some .directory) (n : Node) : (fs.put p n).walk here names = .ok place := by
  induction names generalizing here with
  | nil => exact h
  | cons name names ih =>
    obtain ⟨hnode, hlimit, hrest⟩ := walk_cons_eq_ok_iff.1 h
    have hne : here ≠ p := by
      rintro rfl
      exact hp hnode
    rw [walk_cons_eq_ok_iff, node?_put_of_ne fs hne]
    exact ⟨hnode, hlimit, ih hrest⟩

/-- What it takes to create a file: a directory that is there, and a name in it that is free or
belongs to a file. -/
theorem exists_of_locateNew (h : fs.locateNew path = .ok place) :
    refusal? path = none ∧ Path.endsInSlash path = false ∧ fs.node? place ≠ some .directory ∧
      ∃ parent name, place = parent ++ [name] ∧ place = enter parent name ∧
        (Path.components path).getLast? = some name ∧ name.utf8ByteSize ≤ nameLimit ∧
        fs.walk (fs.origin path) ((Path.components path).dropLast ++ ["."]) = .ok parent := by
  unfold locateNew at h
  split at h
  · cases h
  next hrefusal =>
    dsimp only at h
    split at h
    · cases h
    next parent hparent =>
      split at h
      · cases h
      next name hname =>
        split_ifs at h with hdirectory hlimit
        split at h
        · cases h
        next hfree =>
          obtain rfl := Except.ok.inj h
          rw [not_or, not_or, Bool.not_eq_true] at hdirectory
          obtain ⟨hdot, hdots, hslash⟩ := hdirectory
          refine ⟨hrefusal, hslash, hfree, parent, name, rfl, ?_, hname, Nat.not_lt.1 hlimit,
            hparent⟩
          rw [enter, if_neg hdot, if_neg hdots]

theorem write_eq_ok_iff {content : ByteArray} {fs' : FileSystem} :
    fs.write path content = .ok fs' ↔
      ∃ place, fs.locateNew path = .ok place ∧ fs' = fs.put place (.file content) := by
  unfold write
  cases fs.locateNew path with
  | error e => simp
  | ok place => simp [eq_comm]

/-- The files `fs'` are the files `fs` but for one, at `place`, which is new or had another
content. -/
structure OnlyWrote (fs : FileSystem) (place : Place) (content : ByteArray) (fs' : FileSystem) :
    Prop where
  written : fs'.node? place = some (.file content)
  others : ∀ p, p ≠ place → fs'.node? p = fs.node? p
  notDirectory : fs.node? place ≠ some .directory
  workingDirectory : fs'.workingDirectory = fs.workingDirectory

theorem onlyWrote_put (h : fs.locateNew path = .ok place) (content : ByteArray) :
    fs.OnlyWrote place content (fs.put place (.file content)) := by
  obtain ⟨-, -, hfree, parent, name, rfl, -⟩ := exists_of_locateNew h
  exact ⟨node?_put_self fs (by simp) _, fun p hp => node?_put_of_ne fs hp _, hfree, rfl⟩

/-- What is written under a path is read under it. -/
theorem read_put (h : fs.locateNew path = .ok place) (content : ByteArray) :
    (fs.put place (.file content)).read path = .ok content := by
  obtain ⟨hrefusal, hslash, hfree, parent, name, hplace, henter, hname, hlimit, hparent⟩ :=
    exists_of_locateNew h
  obtain ⟨p, hp, hnode, -, hdot⟩ := walk_concat_eq_ok_iff.1 hparent
  obtain rfl : parent = p := by simpa [enter] using hdot
  have hwalk : fs.walk (fs.origin path) (Path.components path) = .ok place := by
    rw [← List.dropLast_append_getLast? name hname, walk_concat_eq_ok_iff]
    exact ⟨parent, hp, hnode, hlimit, henter⟩
  have hlocate : (fs.put place (.file content)).locate path = .ok place := by
    unfold locate
    rw [hrefusal, if_neg (by simp [hslash]), List.append_nil]
    exact walk_put hwalk hfree _
  unfold read
  rw [hlocate]
  simp only
  rw [node?_put_self fs (by simp [hplace])]

theorem locateNew_of_no_slash (hslash : '/' ∉ path.toList) (h : fs.locateNew path = .ok place) :
    place = fs.workingDirectory ++ [path] := by
  obtain ⟨hrefusal, -, -, parent, name, rfl, -, hname, -, hparent⟩ := exists_of_locateNew h
  have hne : path ≠ "" := by
    rintro rfl
    simp [refusal?] at hrefusal
  have hrelative : Path.isAbsolute path = false := by
    unfold Path.isAbsolute
    rw [beq_eq_false_iff_ne]
    intro hhead
    exact hslash (List.mem_of_head? hhead)
  rw [Path.components_of_no_slash hne hslash] at hparent hname
  obtain rfl : path = name := by simpa using hname
  rw [List.dropLast_singleton, List.nil_append] at hparent
  obtain rfl := Except.ok.inj (walk_cons_eq_ok_iff.1 hparent).2.2
  simp [enter, origin, hrelative]

/-- Everything that is there stands in a directory. -/
def IsTree (fs : FileSystem) : Prop :=
  ∀ p n, fs.node? p = some n → p ≠ [] → fs.node? p.dropLast = some .directory

theorem IsTree.node?_enter_dots (htree : fs.IsTree) (h : fs.node? p = some .directory) :
    fs.node? (enter p "..") = some .directory := by
  have henter : enter p ".." = p.dropLast := by simp [enter]
  rw [henter]
  by_cases hp : p = []
  · simp [hp, node?]
  · exact htree p _ h hp

theorem exists_of_read {content : ByteArray} (h : fs.read path = .ok content) :
    path ≠ "" ∧ ∃ place, fs.node? place = some (.file content) ∧
      fs.walk (fs.origin path)
        (Path.components path ++ if Path.endsInSlash path then ["."] else []) = .ok place := by
  unfold read locate at h
  split at h
  · cases h
  next place hplace =>
    split at hplace
    · cases hplace
    next hrefusal =>
      refine ⟨?_, place, ?_, hplace⟩
      · rintro rfl
        simp [refusal?] at hrefusal
      · split at h
        · cases h
        · cases h
        next hnode => rw [hnode, Except.ok.inj h]

/-- A path that can be read ends in a name, since what ends in a slash or in one dot is a directory;
and this name is looked up in a directory. -/
theorem exists_name_of_read {content : ByteArray} (h : fs.read path = .ok content) :
    Path.endsInSlash path = false ∧
      ∃ name p, (Path.components path).getLast? = some name ∧ name ≠ "." ∧
        fs.node? p = some .directory ∧ fs.node? (enter p name) = some (.file content) := by
  obtain ⟨hne, place, hnode, hwalk⟩ := exists_of_read h
  cases hslash : Path.endsInSlash path with
  | true =>
    rw [if_pos hslash] at hwalk
    obtain ⟨p, -, hp, -, rfl⟩ := walk_concat_eq_ok_iff.1 hwalk
    simp [hp] at hnode
  | false =>
    refine ⟨rfl, ?_⟩
    rw [if_neg (by simp [hslash]), List.append_nil] at hwalk
    rcases List.eq_nil_or_concat' (Path.components path) with hnil | ⟨names, name, hnames⟩
    · rw [Path.endsInSlash_of_components_eq_nil hne hnil] at hslash
      cases hslash
    · rw [hnames] at hwalk
      obtain ⟨p, -, hp, -, rfl⟩ := walk_concat_eq_ok_iff.1 hwalk
      refine ⟨name, p, by rw [hnames, List.getLast?_concat], ?_, hp, hnode⟩
      rintro rfl
      simp [enter, hp] at hnode

theorem exists_isStem_of_read {content : ByteArray} {stem : String}
    (h : fs.read path = .ok content) (hstem : Path.stem? path = some stem) :
    ∃ name, Path.EndsIn path name ∧ Path.IsStem name stem := by
  obtain ⟨hslash, name, p, hname, hdot, -⟩ := exists_name_of_read h
  exact ⟨name, Path.endsIn_of_getLast?_components hname hslash,
    Path.isStem_of_stem? hname hdot hstem⟩

/-- In a tree a path that can be read has a stem, since what ends in two dots is a directory. -/
theorem IsTree.exists_stem_of_read (htree : fs.IsTree) {content : ByteArray}
    (h : fs.read path = .ok content) : ∃ stem, Path.stem? path = some stem := by
  obtain ⟨-, name, p, hname, hdot, hp, hfile⟩ := exists_name_of_read h
  rw [Path.stem?_eq hname hdot]
  split_ifs with hdots
  · rw [hdots, htree.node?_enter_dots hp] at hfile
    cases hfile
  · exact ⟨_, rfl⟩

def home : FileSystem where
  nodes := [(["w"], .directory), (["w", "p"], .file "LDA 3\nHLT".toUTF8),
    (["w", "q"], .file "?\n".toUTF8), (["w", "p.s"], .file "HLT".toUTF8)]
  workingDirectory := ["w"]

theorem home_isTree : home.IsTree := by
  intro p n hnode hp
  have hplaces : ∀ entry ∈ home.nodes, home.node? entry.1.dropLast = some .directory := by
    simp [home, node?]
  unfold node? at hnode
  rw [if_neg hp] at hnode
  obtain ⟨before, after, hnodes, -⟩ := List.lookup_eq_some_iff.1 hnode
  exact hplaces (p, n) (by simp [hnodes])

end FileSystem

end NibbleAsm
