import Mathlib.Data.List.DropRight
import Rrdtool.Daemon.Encoding
import Rrdtool.Daemon.Handlers
import Rrdtool.Lib.Loop
import Rrdtool.Lib.Path

/-!
# Writes into the base directory

With `-B`, `rrdcached` writes into the directory of `-b` only. `read_options` takes a directory
under its real path alone, `get_abs_path` puts it in front of relative names, and
`check_file_access` looks at the text of the path: no `../`, and the directory and a slash in front
of at least one more byte.

* `write_confined` — no component of an accepted path but the last one goes up, so that a file it
  names is below the directory.
-/

namespace Rrdtool.Daemon

/-! ## The options -/

/-- What the system says about directories. -/
structure DirSys : Type where
  /-- `rrd_mkdir_p` returns 0 -/
  mkdirP : Text → Bool
  /-- `realpath` -/
  realpath : Text → Option Text

/-- `realpath` returns the absolute path name. -/
def DirSys.Absolute (sys : DirSys) : Prop :=
  ∀ path real, sys.realpath path = some real → real.head? = some '/'

/-- The loops that cut the slashes off the end. -/
def stripSlashes (path : Text) : Text := path.rdropWhile (· = '/')

/-- `-b`: the exit code, or the new `config_base_dir`. -/
def optionBase (sys : DirSys) (optarg : Text) : Except ℕ Text :=
  if sys.mkdirP optarg then
    match sys.realpath optarg with
    | none => .error 5
    | some real =>
      let dir := stripSlashes optarg
      if dir.length < 1 then .error 4
      else if dir.take pathMax ≠ (stripSlashes real).take pathMax then .error 5
      else .ok dir
  else .error 3

/-- The options about the base directory. -/
inductive BaseOpt : Type where
  /-- `-b` -/
  | base (optarg : Text)
  /-- `-B` -/
  | writeBaseOnly

/-- One of these options. -/
def readOption (sys : DirSys) (opts : Opts) : BaseOpt → Except ℕ Opts
  | .base optarg => (optionBase sys optarg).map fun dir => { opts with baseDir := some dir }
  | .writeBaseOnly => .ok { opts with writeBaseOnly := true }

/-- `read_options` -/
def readOptions (sys : DirSys) : List BaseOpt → Opts → Except ℕ Opts
  | [], opts => .ok opts
  | o :: os, opts => (readOption sys opts o).bind (readOptions sys os)

/-! ## The base directory -/

variable {sys : DirSys} {opts opts' : Opts} {dir file : Text}

/-- What is left of a path starts as the path does. -/
theorem head_stripSlashes {path : Text} (h : stripSlashes path ≠ []) :
    path.head? = (stripSlashes path).head? := by
  have happ : stripSlashes path ++ path.rtakeWhile (· = '/') = path :=
    List.rdropWhile_append_rtakeWhile
  rw [← List.head?_append_of_ne_nil _ h, happ]

/-- A directory that is taken is absolute. -/
theorem optionBase_head (hsys : sys.Absolute) {optarg : Text} (h : optionBase sys optarg = .ok dir) :
    dir.head? = some '/' := by
  cases hmk : sys.mkdirP optarg with
  | false => simp [optionBase, hmk] at h
  | true =>
  cases hreal : sys.realpath optarg with
  | none => simp [optionBase, hmk, hreal] at h
  | some real =>
    simp only [optionBase, hmk, hreal, if_true] at h
    split_ifs at h with hlen hsame
    obtain rfl := Except.ok.inj h
    -- the real path starts the same way, and so is not empty either
    have hhead : (stripSlashes optarg).head? = (stripSlashes real).head? := by
      have hsame := congrArg List.head? (not_ne_iff.mp hsame)
      rwa [List.head?_take, List.head?_take, if_neg (by decide), if_neg (by decide)] at hsame
    have hne : stripSlashes real ≠ [] := by
      intro hnil
      rw [hnil, List.head?_nil, List.head?_eq_none_iff] at hhead
      exact hlen (by simp [hhead])
    rw [hhead, ← head_stripSlashes hne]
    exact hsys optarg real hreal

/-- Whatever options are read. -/
theorem readOptions_head (hsys : sys.Absolute) {os : List BaseOpt}
    (h : readOptions sys os opts = .ok opts') (h0 : ∀ dir ∈ opts.baseDir, dir.head? = some '/') :
    ∀ dir ∈ opts'.baseDir, dir.head? = some '/' := by
  induction os generalizing opts with
  | nil =>
    obtain rfl := Except.ok.inj h
    exact h0
  | cons o os ih =>
    obtain ⟨mid, hmid, h⟩ := Loop.bind_eq_ok.mp h
    refine ih h ?_
    cases o with
    | writeBaseOnly =>
      obtain rfl := Except.ok.inj hmid
      exact h0
    | base optarg =>
      obtain ⟨dir, hdir, rfl⟩ := Loop.map_eq_ok.mp hmid
      intro d hd
      obtain rfl := Option.some.inj hd
      exact optionBase_head hsys hdir

/-! ## Components -/

/-- A component of a path. -/
def component (w : Text) : Path.Comp Text :=
  if w = [] ∨ w = ['.'] then .stay else if w = ['.', '.'] then .up else .down w

/-- The components of a path. -/
def components (path : Text) : List (Path.Comp Text) := (CStr.splitOn '/' path).map component

theorem components_append (a b : Text) :
    components (a ++ '/' :: b) = components a ++ components b := by
  rw [components, CStr.splitOn_append, List.map_append]
  rfl

/-- There is always a last component. -/
theorem components_eq_concat (path : Text) :
    ∃ c, components path = (components path).dropLast ++ [c] := by
  refine ⟨_, (List.dropLast_append_getLast ?_).symm⟩
  exact fun hnil => CStr.splitOn_ne_nil '/' path (List.map_eq_nil_iff.mp hnil)

theorem strstr_append (needle a b : Text) : strstr needle (a ++ needle ++ b) = true := by
  induction a with
  | nil =>
    cases needle with
    | nil => cases b <;> simp [strstr]
    | cons c needle => simp [strstr]
  | cons c a ih => simp only [List.cons_append, strstr, ih, Bool.or_true]

theorem strstr_of_append {needle a b : Text} (h : strstr needle (a ++ b) = false) :
    strstr needle b = false := by
  induction a with
  | nil => exact h
  | cons c a ih =>
    simp only [List.cons_append, strstr, Bool.or_eq_false_iff] at h
    exact ih h.2

/-- **No component but the last one goes up** in a path without `../`. -/
theorem up_notMem_dropLast {path : Text} (h : strstr "../".toList path = false) :
    Path.Comp.up ∉ (components path).dropLast := by
  intro hup
  obtain ⟨c, hc⟩ := components_eq_concat path
  obtain ⟨before, after, hsplit⟩ := List.append_of_mem hup
  rw [hsplit, List.append_assoc, List.cons_append] at hc
  obtain ⟨ws, ws', hws, -, hws'⟩ := List.map_eq_append_iff.mp hc
  obtain ⟨w, vs, rfl, hw, hvs⟩ := List.map_eq_cons_iff.mp hws'
  have hvs : vs ≠ [] := by
    rintro rfl
    exact absurd hvs (by simp)
  obtain ⟨a, b, rfl, -⟩ := CStr.splitOn_piece hws hvs
  -- the component goes up, and a slash follows it
  have hdots : w = ['.', '.'] := by
    simp only [component] at hw
    split_ifs at hw with h1 h2
    exact h2
  subst hdots
  have hfound := strstr_append "../".toList a b
  rw [List.append_assoc] at hfound
  rw [List.append_assoc] at h
  exact absurd (hfound.symm.trans h) (by simp)

/-! ## Confinement -/

/-- **What `check_file_access` accepts** from a client, of absolute paths. -/
theorem fileAccess_eq_true {sock : Sock} (hB : opts.writeBaseOnly = true)
    (hdir : opts.baseDir = some dir) (hfile : file.head? = some '/')
    (h : fileAccess opts (some sock) file = true) :
    strstr "../".toList file = false ∧ ∃ rest, rest ≠ [] ∧ file = dir ++ '/' :: rest := by
  simp only [fileAccess, hdir, hB, hfile, Bool.not_true, Bool.false_eq_true, if_false, ne_eq,
    not_true_eq_false] at h
  split_ifs at h with hdots
  simp only [Bool.and_eq_true, decide_eq_true_eq] at h
  obtain ⟨⟨hlen, htake⟩, hslash⟩ := h
  refine ⟨by simpa using hdots, file.drop (dir.length + 1), ?_, ?_⟩
  · intro hnil
    have := List.drop_eq_nil_iff.mp hnil
    omega
  · have hlt : dir.length < file.length := by omega
    have hget : file[dir.length] = '/' :=
      Option.some.inj ((List.getElem?_eq_getElem hlt).symm.trans hslash)
    calc file = file.take dir.length ++ file.drop dir.length := (List.take_append_drop _ _).symm
      _ = dir ++ '/' :: file.drop (dir.length + 1) := by
        rw [htake, List.drop_eq_getElem_cons hlt, hget]

/-- **Writes are confined to the base directory.** A path that is accepted is the directory, a slash
and at least one more byte; all its components but the last one stay below the directory; and a file
that it names is below it, in a tree without links. -/
theorem write_confined {os : List BaseOpt} {init : Opts} {sock : Sock} {name : Text}
    (hsys : sys.Absolute) (hinit : init.baseDir = none) (hopts : readOptions sys os init = .ok opts)
    (hdir : opts.baseDir = some dir) (hB : opts.writeBaseOnly = true)
    (h : fileAccess opts (some sock) (getAbsPath opts.baseDir name) = true) :
    ∃ rest, rest ≠ [] ∧ getAbsPath opts.baseDir name = dir ++ '/' :: rest ∧
      (∀ n < (components rest).length, (Path.walk ((components rest).take n) 0).isSome = true) ∧
      ∀ (tree : Path.Tree Text) (base loc : Path.Loc Text),
        tree.Names [] (components dir) base →
        tree.Names [] (components (getAbsPath opts.baseDir name)) loc → tree.isFile loc →
        ∃ file names, loc = file :: (names ++ base) := by
  have habs : dir.head? = some '/' :=
    readOptions_head hsys hopts (by simp [hinit]) dir (by simp [hdir])
  obtain ⟨hdots, rest, hne, hrest⟩ :=
    fileAccess_eq_true hB hdir (hdir ▸ getAbsPath_head habs) h
  rw [hrest] at hdots
  have hup : Path.Comp.up ∉ (components rest).dropLast := by
    rw [← List.singleton_append, ← List.append_assoc] at hdots
    exact up_notMem_dropLast (strstr_of_append hdots)
  refine ⟨rest, hne, hrest, fun n hn => ?_, fun tree base loc hbase hloc hfile => ?_⟩
  · refine Path.walk_isSome (fun hmem => hup ?_) 0
    have hle : n ≤ (components rest).length - 1 := Nat.le_sub_one_of_lt hn
    rw [List.dropLast_eq_take]
    exact List.take_subset_take_left _ hle hmem
  · rw [hrest, components_append] at hloc
    obtain ⟨mid, hmid, hloc⟩ := hloc.of_append
    obtain rfl := hbase.unique hmid
    obtain ⟨c, hc⟩ := components_eq_concat rest
    rw [hc] at hloc
    exact hloc.file_below (Path.walk_isSome hup 0) hfile

/-- A system with the directory `/data`. -/
def dataSys : DirSys where
  mkdirP := fun _ => true
  realpath := fun path => if path = "/data/".toList then some "/data".toList else none

theorem dataSys_absolute : dataSys.Absolute := by
  intro path real h
  simp only [dataSys] at h
  split_ifs at h
  obtain rfl := Option.some.inj h
  rfl

/-- `rrdcached -b /data/ -B`, and a file in a directory below `/data`. -/
theorem data_confined :
    let init : Opts := ⟨queueThreads 1 Nat.one_pos, none, false, none⟩
    let opts : Opts := ⟨queueThreads 1 Nat.one_pos, some "/data".toList, true, none⟩
    readOptions dataSys [.base "/data/".toList, .writeBaseOnly] init = .ok opts ∧
      fileAccess opts (some ⟨false, 0⟩) (getAbsPath opts.baseDir "host/x.rrd".toList) = true ∧
      ∃ rest, rest ≠ [] ∧
        getAbsPath opts.baseDir "host/x.rrd".toList = "/data".toList ++ '/' :: rest := by
  intro init opts
  have hopts : readOptions dataSys [.base "/data/".toList, .writeBaseOnly] init = .ok opts := by
    have hbase : optionBase dataSys "/data/".toList = .ok "/data".toList := by decide +kernel
    simp only [readOptions, readOption, hbase]
    rfl
  have hfile : fileAccess opts (some ⟨false, 0⟩)
      (getAbsPath opts.baseDir "host/x.rrd".toList) = true := by decide +kernel
  obtain ⟨rest, hne, hrest, -⟩ := write_confined dataSys_absolute rfl hopts rfl rfl hfile
  exact ⟨hopts, hfile, rest, hne, hrest⟩

end Rrdtool.Daemon
