import SymbolRename.Template.Kind
import SymbolRename.Text.Lines

/-!
# Members of kinds

What the kinds of arguments give to their values by name. A field may ask for a member of a value,
which then belongs to that value, or for a member of the kind itself.
-/

set_option autoImplicit false

namespace SymbolRename.Template

inductive Role where
  /-- Work that has a sign of its own, such as adding. -/
  | operation
  | method
  /-- A part of the value. -/
  | property
  /-- Work of the kind and not of its values. -/
  | shared
  /-- Work that belongs neither to a value nor to the kind it is asked from. -/
  | detached
  /-- A member that is taken away. -/
  | missing
deriving DecidableEq

/-- A member as the kind that has it itself gives it. -/
structure Member where
  role : Role
  owner : Kind
  name : Text

namespace Kind

def operations : Kind → String
  | .object =>
    "__repr__ __hash__ __str__ __getattribute__ __setattr__ __delattr__ __lt__ __le__ __eq__ " ++
    "__ne__ __gt__ __ge__ __init__"
  | .type =>
    "__repr__ __call__ __getattribute__ __setattr__ __delattr__ __init__ __or__ __ror__"
  | .nothing => "__repr__ __bool__"
  | .truth => "__repr__ __and__ __rand__ __xor__ __rxor__ __or__ __ror__"
  | .integer =>
    "__repr__ __hash__ __getattribute__ __lt__ __le__ __eq__ __ne__ __gt__ __ge__ __add__ " ++
    "__radd__ __sub__ __rsub__ __mul__ __rmul__ __mod__ __rmod__ __divmod__ __rdivmod__ " ++
    "__pow__ __rpow__ __neg__ __pos__ __abs__ __bool__ __invert__ __lshift__ __rlshift__ " ++
    "__rshift__ __rrshift__ __and__ __rand__ __xor__ __rxor__ __or__ __ror__ __int__ " ++
    "__float__ __floordiv__ __rfloordiv__ __truediv__ __rtruediv__ __index__"
  | .real =>
    "__repr__ __hash__ __getattribute__ __lt__ __le__ __eq__ __ne__ __gt__ __ge__ __add__ " ++
    "__radd__ __sub__ __rsub__ __mul__ __rmul__ __mod__ __rmod__ __divmod__ __rdivmod__ " ++
    "__pow__ __rpow__ __neg__ __pos__ __abs__ __bool__ __int__ __float__ __floordiv__ " ++
    "__rfloordiv__ __truediv__ __rtruediv__"
  | .text =>
    "__repr__ __hash__ __str__ __getattribute__ __lt__ __le__ __eq__ __ne__ __gt__ __ge__ " ++
    "__iter__ __mod__ __rmod__ __len__ __getitem__ __add__ __mul__ __rmul__ __contains__"
  | .bytes =>
    "__repr__ __hash__ __str__ __getattribute__ __lt__ __le__ __eq__ __ne__ __gt__ __ge__ " ++
    "__iter__ __mod__ __rmod__ __len__ __getitem__ __add__ __mul__ __rmul__ __contains__"
  | .list =>
    "__repr__ __getattribute__ __lt__ __le__ __eq__ __ne__ __gt__ __ge__ __iter__ __init__ " ++
    "__len__ __setitem__ __delitem__ __add__ __mul__ __rmul__ __contains__ __iadd__ __imul__"
  | .tuple =>
    "__repr__ __hash__ __getattribute__ __lt__ __le__ __eq__ __ne__ __gt__ __ge__ __iter__ " ++
    "__len__ __getitem__ __add__ __mul__ __rmul__ __contains__"
  | .set =>
    "__repr__ __getattribute__ __lt__ __le__ __eq__ __ne__ __gt__ __ge__ __iter__ __init__ " ++
    "__sub__ __rsub__ __and__ __rand__ __xor__ __rxor__ __or__ __ror__ __isub__ __iand__ " ++
    "__ixor__ __ior__ __len__"
  | .dict =>
    "__repr__ __getattribute__ __lt__ __le__ __eq__ __ne__ __gt__ __ge__ __iter__ __init__ " ++
    "__or__ __ror__ __ior__ __len__ __setitem__ __delitem__"
  | _ => ""

def methods : Kind → String
  | .object => "__reduce_ex__ __reduce__ __getstate__ __format__ __sizeof__ __dir__"
  | .type => "mro __subclasses__ __instancecheck__ __subclasscheck__ __dir__ __sizeof__"
  | .integer =>
    "conjugate bit_length bit_count to_bytes as_integer_ratio __trunc__ __floor__ __ceil__ " ++
    "__round__ __getnewargs__ __format__ __sizeof__"
  | .real =>
    "conjugate __trunc__ __floor__ __ceil__ __round__ as_integer_ratio hex is_integer " ++
    "__getnewargs__ __format__"
  | .text =>
    "encode replace split rsplit join capitalize casefold title center count expandtabs find " ++
    "partition index ljust lower lstrip rfind rindex rjust rstrip rpartition splitlines strip " ++
    "swapcase translate upper startswith endswith removeprefix removesuffix isascii islower " ++
    "isupper istitle isspace isdecimal isdigit isnumeric isalpha isalnum isidentifier " ++
    "isprintable zfill format format_map __format__ __sizeof__ __getnewargs__"
  | .bytes =>
    "__getnewargs__ __bytes__ capitalize center count decode endswith expandtabs find hex " ++
    "index isalnum isalpha isascii isdigit islower isspace istitle isupper join ljust lower " ++
    "lstrip partition replace removeprefix removesuffix rfind rindex rjust rpartition rsplit " ++
    "rstrip split splitlines startswith strip swapcase title translate upper zfill"
  | .list =>
    "__getitem__ __reversed__ __sizeof__ clear copy append insert extend pop remove index " ++
    "count reverse sort"
  | .tuple => "__getnewargs__ index count"
  | .set =>
    "__contains__ add clear copy discard difference difference_update intersection " ++
    "intersection_update isdisjoint issubset issuperset pop __reduce__ remove __sizeof__ " ++
    "symmetric_difference symmetric_difference_update union update"
  | .dict =>
    "__getitem__ __contains__ __sizeof__ get setdefault pop popitem keys items values update " ++
    "clear copy __reversed__"
  | .filePath =>
    "_make_child_relpath __enter__ __exit__ samefile iterdir _scandir glob rglob absolute " ++
    "resolve stat owner group open read_bytes read_text write_bytes write_text readlink touch " ++
    "mkdir chmod lchmod unlink rmdir lstat rename replace symlink_to hardlink_to link_to " ++
    "exists is_dir is_file is_mount is_symlink is_block_device is_char_device is_fifo " ++
    "is_socket expanduser"
  | .purePath =>
    "__reduce__ _make_child __str__ __fspath__ as_posix __bytes__ __repr__ as_uri __eq__ " ++
    "__hash__ __lt__ __le__ __gt__ __ge__ with_name with_stem with_suffix relative_to " ++
    "is_relative_to joinpath __truediv__ __rtruediv__ is_absolute is_reserved match"
  | _ => ""

def properties : Kind → String
  | .integer => "real imag numerator denominator"
  | .real => "real imag"
  | .purePath => "drive root anchor name suffix suffixes stem parts parent parents _cparts"
  | _ => ""

def sharedMethods : Kind → String
  | .object => "__new__ __subclasshook__ __init_subclass__"
  | .type => "__new__ __prepare__"
  | .nothing => "__new__"
  | .truth => "__new__"
  | .integer => "__new__ from_bytes"
  | .real => "__new__ fromhex __getformat__"
  | .text => "__new__ maketrans"
  | .bytes => "__new__ fromhex maketrans"
  | .list => "__new__ __class_getitem__"
  | .tuple => "__new__ __class_getitem__"
  | .set => "__new__ __class_getitem__"
  | .dict => "__new__ fromkeys __class_getitem__"
  | .filePath => "cwd home"
  | .purePath => "_parse_args _from_parts _from_parsed_parts _format_parsed_parts"
  | _ => ""

def detachedMethods : Kind → String
  | .filePath | .purePath => "__new__"
  | _ => ""

/-- What is not there although a more general kind has it: what can grow has no hash. -/
def missing : Kind → String
  | .list | .dict | .set => "__hash__"
  | _ => ""

def among (words : String) (name : Text) : Bool := (Text.splitAt ' ' words).contains name

def role? (k : Kind) (name : Text) : Option Role :=
  if among k.missing name then some .missing
  else if among k.properties name then some .property
  else if among k.operations name then some .operation
  else if among k.methods name then some .method
  else if among k.sharedMethods name then some .shared
  else if among k.detachedMethods name then some .detached
  else none

/-- A member of a kind, from the nearest kind of its lineage that has it. -/
def member? (k : Kind) (name : Text) : Option Member :=
  if name.isEmpty then none
  else k.lineage.findSome? fun owner => (owner.role? name).map (⟨·, owner, name⟩)

end Kind

namespace Member

def quoted (s : Text) : Text := "\x27" ++ s ++ "\x27"

def nameIn (m : Member) (k : Kind) : Text := k.name ++ "." ++ m.name

def kind (m : Member) : Kind :=
  if m.owner.isPath then (if m.role = .property then .functionProperty else .function)
  else match m.role with
    | .operation => .operation
    | .property => .property
    | _ => .method

def shown (m : Member) : Text :=
  let ending := quoted m.name ++ " of " ++ quoted m.owner.name ++ " objects>"
  match m.kind with
  | .operation => "<slot wrapper " ++ ending
  | .property => "<attribute " ++ ending
  | .function => "<function " ++ m.nameIn m.owner ++ ">"
  | .functionProperty => "<property object>"
  | _ => "<method " ++ ending

def boundKind (m : Member) : Kind :=
  if m.owner.isPath then .boundFunction
  else match m.role with
    | .operation => .boundOperation
    | _ => .boundMethod

def boundShown (m : Member) (kind : Kind) (literal : Text) : Text :=
  match m.boundKind with
  | .boundFunction => "<bound method " ++ m.nameIn m.owner ++ " of " ++ literal ++ ">"
  | .boundOperation => "<method-wrapper " ++ quoted m.name ++ " of " ++ kind.name ++ " object>"
  | _ => "<built-in method " ++ m.name ++ " of " ++ kind.name ++ " object>"

end Member
end SymbolRename.Template
