import SymbolRename.Text

/-!
# Kinds of arguments

Every argument of a template is of a kind, and kinds are arguments themselves: a field may ask for
the kind of an argument and for what the kind is called, where it comes from, what it says about
itself, and which kinds it is a special case of.
-/

set_option autoImplicit false

namespace SymbolRename.Template

inductive Kind where
  | object
  /-- The kind of kinds. -/
  | type
  | nothing
  | truth
  | integer
  | real
  | text
  | bytes
  | list
  | tuple
  | set
  | dict
  | date
  | time
  | dateTime
  | purePath
  | purePosixPath
  | filePath
  | posixPath
  /-- The row of the paths above a path. -/
  | ancestors
  /-- A kind with an argument of its own. -/
  | applied
  | operation
  | boundOperation
  | method
  | boundMethod
  | property
  | function
  | boundFunction
  | functionProperty
deriving DecidableEq

namespace Kind

def name : Kind → String
  | object => "object"
  | type => "type"
  | nothing => "NoneType"
  | truth => "bool"
  | integer => "int"
  | real => "float"
  | text => "str"
  | bytes => "bytes"
  | list => "list"
  | tuple => "tuple"
  | set => "set"
  | dict => "dict"
  | date => "date"
  | time => "time"
  | dateTime => "datetime"
  | purePath => "PurePath"
  | purePosixPath => "PurePosixPath"
  | filePath => "Path"
  | posixPath => "PosixPath"
  | ancestors => "_PathParents"
  | applied => "GenericAlias"
  | operation => "wrapper_descriptor"
  | boundOperation => "method-wrapper"
  | method => "method_descriptor"
  | boundMethod => "builtin_function_or_method"
  | property => "getset_descriptor"
  | function => "function"
  | boundFunction => "method"
  | functionProperty => "property"

def origin : Kind → String
  | date | time | dateTime => "datetime"
  | purePath | purePosixPath | filePath | posixPath | ancestors => "pathlib"
  | applied => "types"
  | _ => "builtins"

def fullName (k : Kind) : Text :=
  if k.origin = "builtins" then k.name else k.origin ++ "." ++ (k.name : Text)

/-- A kind and the kinds that it is a special case of, nearest first. -/
def lineage : Kind → List Kind
  | object => [object]
  | truth => [truth, integer, object]
  | dateTime => [dateTime, date, object]
  | purePosixPath => [purePosixPath, purePath, object]
  | filePath => [filePath, purePath, object]
  | posixPath => [posixPath, filePath, purePosixPath, purePath, object]
  | k => [k, object]

def bases : Kind → List Kind
  | posixPath => [filePath, purePosixPath]
  | k => (k.lineage.drop 1).take 1

def isPath (k : Kind) : Bool := k.lineage.contains purePath

/-- Whether all that a kind gives to its values is known here. -/
def isListed : Kind → Bool
  | object | type | nothing | truth | integer | real | text | bytes | list | tuple | set | dict =>
    true
  | _ => false

/-- What a kind says about itself, where that is given here. -/
def about? : Kind → Option String
  | .object => some <|
    "The base class of the class hierarchy.\n\nWhen called, it accepts no arguments and " ++
    "returns a new featureless\ninstance that has no instance attributes and cannot be " ++
    "given any.\n"
  | .type => some <|
    "type(object) -> the object\x27s type\ntype(name, bases, dict, **kwds) -> a new type"
  | .truth => some <|
    "bool(x) -> bool\n\nReturns True when the argument x is true, False otherwise.\nThe " ++
    "builtins True and False are the only two instances of the class bool.\nThe class bool " ++
    "is a subclass of the class int, and cannot be subclassed."
  | .integer => some <|
    "int([x]) -> integer\nint(x, base=10) -> integer\n\nConvert a number or string to an " ++
    "integer, or return 0 if no arguments\nare given.  If x is a number, return " ++
    "x.__int__().  For floating point\nnumbers, this truncates towards zero.\n\nIf x is " ++
    "not a number or if base is given, then x must be a string,\nbytes, or bytearray " ++
    "instance representing an integer literal in the\ngiven base.  The literal can be " ++
    "preceded by \x27+\x27 or \x27-\x27 and be surrounded\nby whitespace.  The base " ++
    "defaults to 10.  Valid bases are 0 and 2-36.\nBase 0 means to interpret the base from " ++
    "the string as an integer literal.\n>>> int(\x270b100\x27, base=0)\n4"
  | .real => some <|
    "Convert a string or number to a floating point number, if possible."
  | .text => some <|
    "str(object=\x27\x27) -> str\nstr(bytes_or_buffer[, encoding[, errors]]) -> " ++
    "str\n\nCreate a new string object from the given object. If encoding or\nerrors is " ++
    "specified, then the object must expose a data buffer\nthat will be decoded using the " ++
    "given encoding and error handler.\nOtherwise, returns the result of object.__str__() " ++
    "(if defined)\nor repr(object).\nencoding defaults to " ++
    "sys.getdefaultencoding().\nerrors defaults to \x27strict\x27."
  | .bytes => some <|
    "bytes(iterable_of_ints) -> bytes\nbytes(string, encoding[, errors]) -> " ++
    "bytes\nbytes(bytes_or_buffer) -> immutable copy of bytes_or_buffer\nbytes(int) -> " ++
    "bytes object of size given by the parameter initialized with null bytes\nbytes() -> " ++
    "empty bytes object\n\nConstruct an immutable array of bytes from:\n  - an iterable " ++
    "yielding integers in range(256)\n  - a text string encoded using the specified " ++
    "encoding\n  - any object implementing the buffer API.\n  - an integer"
  | .list => some <|
    "Built-in mutable sequence.\n\nIf no argument is given, the constructor creates a new " ++
    "empty list.\nThe argument must be an iterable if specified."
  | .tuple => some <|
    "Built-in immutable sequence.\n\nIf no argument is given, the constructor returns an " ++
    "empty tuple.\nIf iterable is specified the tuple is initialized from iterable\x27s " ++
    "items.\n\nIf the argument is a tuple, the return value is the same object."
  | .set => some <|
    "set() -> new empty set object\nset(iterable) -> new set object\n\nBuild an unordered " ++
    "collection of unique elements."
  | .dict => some <|
    "dict() -> new empty dictionary\ndict(mapping) -> new dictionary initialized from a " ++
    "mapping object\x27s\n    (key, value) pairs\ndict(iterable) -> new dictionary " ++
    "initialized as if via:\n    d = \x7b\x7d\n    for k, v in iterable:\n        d[k] = " ++
    "v\ndict(**kwargs) -> new dictionary initialized with the name=value pairs\n    in the " ++
    "keyword argument list.  For example:  dict(one=1, two=2)"
  | .posixPath => some <|
    "Path subclass for non-Windows systems.\n\n    On a POSIX system, instantiating a Path " ++
    "should return this object.\n    "
  | .filePath => some <|
    "PurePath subclass that can make system calls.\n\n    Path represents a filesystem " ++
    "path but unlike PurePath, also offers\n    methods to do system calls on path " ++
    "objects. Depending on your system,\n    instantiating a Path will return either a " ++
    "PosixPath or a WindowsPath\n    object. You can also instantiate a PosixPath or " ++
    "WindowsPath directly,\n    but cannot instantiate a WindowsPath on a POSIX system or " ++
    "vice versa.\n    "
  | .purePosixPath => some <|
    "PurePath subclass for non-Windows systems.\n\n    On a POSIX system, instantiating a " ++
    "PurePath should return this object.\n    However, you can also instantiate it " ++
    "directly on any system.\n    "
  | .purePath => some <|
    "Base class for manipulating paths without I/O.\n\n    PurePath represents a " ++
    "filesystem path and offers operations which\n    don\x27t imply any actual filesystem " ++
    "I/O.  Depending on your system,\n    instantiating a PurePath will return either a " ++
    "PurePosixPath or a\n    PureWindowsPath object.  You can also instantiate either of " ++
    "these classes\n    directly, regardless of your system.\n    "
  | _ => none

end Kind
end SymbolRename.Template
