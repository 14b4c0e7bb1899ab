import GameScript.Object

/-!
The tokens of `GScompiler.h`. A token is a character or one of the `TK_` codes;
`code` is the number the source uses for it, which the type annotations carry
into instructions and prototypes.
-/

namespace GameScript

inductive Token where
  | eob
  | chr (c : Char)
  | TK_IDENTIFIER | TK_STRING_LITERAL | TK_INTEGER | TK_FLOAT | TK_BASE | TK_DELETE | TK_EQ
  | TK_NE | TK_LE | TK_GE | TK_SWITCH | TK_ARROW | TK_AND | TK_OR | TK_IF | TK_ELSE | TK_WHILE
  | TK_BREAK | TK_FOR | TK_DO | TK_NULL | TK_FOREACH | TK_IN | TK_NEWSLOT | TK_LOCAL | TK_CLONE
  | TK_FUNCTION | TK_RETURN | TK_TYPEOF | TK_PLUSEQ | TK_MINUSEQ | TK_CONTINUE | TK_YIELD
  | TK_TRY | TK_CATCH | TK_THROW | TK_SHIFTL | TK_SHIFTR | TK_RESUME | TK_DOUBLE_COLON | TK_CASE
  | TK_DEFAULT | TK_THIS | TK_PLUSPLUS | TK_MINUSMINUS | TK_3WAYSCMP | TK_USHIFTR | TK_CLASS
  | TK_EXTENDS | TK_CONSTRUCTOR | TK_INSTANCEOF | TK_VARPARAMS | TK___LINE__ | TK___FILE__
  | TK_TRUE | TK_FALSE | TK_MULEQ | TK_DIVEQ | TK_MODEQ | TK_ATTR_OPEN | TK_ATTR_CLOSE
  | TK_STATIC | TK_ENUM | TK_CONST | TK_RAWCALL | TK_PUB | TK_IMPORT | TK_NAMESPACE | TK_INT
  | TK_STRING | TK_BOOL | TK_VOID
deriving DecidableEq, Repr

def Token.code : Token → Int
  | .eob => 0
  | .chr c => c.toNat
  | .TK_IDENTIFIER => 258
  | .TK_STRING_LITERAL => 259
  | .TK_INTEGER => 260
  | .TK_FLOAT => 261
  | .TK_BASE => 262
  | .TK_DELETE => 263
  | .TK_EQ => 264
  | .TK_NE => 265
  | .TK_LE => 266
  | .TK_GE => 267
  | .TK_SWITCH => 268
  | .TK_ARROW => 269
  | .TK_AND => 270
  | .TK_OR => 271
  | .TK_IF => 272
  | .TK_ELSE => 273
  | .TK_WHILE => 274
  | .TK_BREAK => 275
  | .TK_FOR => 276
  | .TK_DO => 277
  | .TK_NULL => 278
  | .TK_FOREACH => 279
  | .TK_IN => 280
  | .TK_NEWSLOT => 281
  | .TK_LOCAL => 283
  | .TK_CLONE => 284
  | .TK_FUNCTION => 285
  | .TK_RETURN => 286
  | .TK_TYPEOF => 287
  | .TK_PLUSEQ => 289
  | .TK_MINUSEQ => 290
  | .TK_CONTINUE => 291
  | .TK_YIELD => 292
  | .TK_TRY => 293
  | .TK_CATCH => 294
  | .TK_THROW => 295
  | .TK_SHIFTL => 296
  | .TK_SHIFTR => 297
  | .TK_RESUME => 298
  | .TK_DOUBLE_COLON => 299
  | .TK_CASE => 300
  | .TK_DEFAULT => 301
  | .TK_THIS => 302
  | .TK_PLUSPLUS => 303
  | .TK_MINUSMINUS => 304
  | .TK_3WAYSCMP => 305
  | .TK_USHIFTR => 306
  | .TK_CLASS => 307
  | .TK_EXTENDS => 308
  | .TK_CONSTRUCTOR => 310
  | .TK_INSTANCEOF => 311
  | .TK_VARPARAMS => 312
  | .TK___LINE__ => 313
  | .TK___FILE__ => 314
  | .TK_TRUE => 315
  | .TK_FALSE => 316
  | .TK_MULEQ => 317
  | .TK_DIVEQ => 318
  | .TK_MODEQ => 319
  | .TK_ATTR_OPEN => 320
  | .TK_ATTR_CLOSE => 321
  | .TK_STATIC => 322
  | .TK_ENUM => 323
  | .TK_CONST => 324
  | .TK_RAWCALL => 325
  | .TK_PUB => 326
  | .TK_IMPORT => 328
  | .TK_NAMESPACE => 329
  | .TK_INT => 330
  | .TK_STRING => 331
  | .TK_BOOL => 332
  | .TK_VOID => 333

/-- The tokens that name a type in a declaration. -/
def Token.isType : Token → Bool
  | .TK_INT | .TK_FLOAT | .TK_STRING | .TK_BOOL | .TK_VOID | .TK_IDENTIFIER => true
  | _ => false

/-- The switch over a type token that `GSArray::Append` and `_OP_TYPECHECK` share:
whether `o` passes for the type. A type without a case accepts nothing. -/
def typeOk (expected_tok : Int) (o : Object) : Bool :=
  if expected_tok = Token.TK_INT.code then o.type = .integer
  else if expected_tok = Token.TK_FLOAT.code then o.type = .float ∨ o.type = .integer
  else if expected_tok = Token.TK_STRING.code then o.type = .string
  else if expected_tok = Token.TK_BOOL.code then o.type = .bool
  else expected_tok = Token.TK_IDENTIFIER.code

end GameScript
